import SmolVlm2Kv260.Export.Checker
import SmolVlm2Kv260.Host.Runner

/-!
# The buffers of the runner and the artifacts

`allocate_buffers` allocates the buffer objects and compares their sizes with those of the
artifacts; `load_export_artifacts` copies the artifacts to them.  Most sizes are computed from
the shapes of the model once more, those of the metadata from the bytes of the weights.
-/

set_option autoImplicit false

namespace Kv260

open Py Checker

/-! ### Buffer objects -/

/-- The buffer objects of `SmolVlm2XrtRunner`. -/
inductive BufferName where
  | vitAct | vitHidden | vitTmp | visionWgt | visionMeta | connectorWgt | connectorMeta
  | imageTokens | actPing | actPong | actOut | decoderWgt0 | decoderWgt1 | decoderMeta0
  | decoderMeta1 | kvK | kvV | gammaAttn | gammaFfn | lmheadWgt | lmheadMeta | logits
deriving DecidableEq

abbrev kVitTokens : ℕ := 1024
abbrev kVitHidden : ℕ := 768
abbrev kImageTokens : ℕ := 64
abbrev kConnectorIn : ℕ := 12288
abbrev kLlmHidden : ℕ := 960
abbrev kVocabSize : ℕ := 49280
abbrev kNumLayers : ℕ := 32
abbrev kNumKvHeads : ℕ := 5

/-- `layer_wgt_bytes`. -/
def layerWgtBytes : ℕ :=
  kLlmHidden * (kLlmHidden + kNumKvHeads * 64 * 2) / 2 + kLlmHidden * kLlmHidden / 2
    + kLlmHidden * 2560 * 2 / 2 + 2560 * kLlmHidden / 2

def decoderWgtBytes : ℕ := layerWgtBytes * kNumLayers

def decoderMetaBytes : ℕ := decoderWgtBytes / 32 * 2

/-- The bytes that are allocated for a buffer object. -/
def allocBytes (maxSeq : ℕ) : BufferName → ℕ
  | .vitAct => kVitTokens * kVitHidden
  | .vitHidden => kVitTokens * kVitHidden * 4
  | .vitTmp => kVitTokens * 3072 * 4
  | .visionWgt => 128 * 1024 * 1024
  | .visionMeta => 16 * 1024 * 1024
  | .connectorWgt => kConnectorIn * kLlmHidden / 2
  | .connectorMeta => kConnectorIn * kLlmHidden / 32 * 2
  | .imageTokens => kImageTokens * kLlmHidden * 4
  | .actPing | .actPong | .actOut => maxSeq * kLlmHidden
  | .decoderWgt0 | .decoderWgt1 => decoderWgtBytes / 2
  | .decoderMeta0 | .decoderMeta1 => decoderMetaBytes / 2
  | .kvK | .kvV => kNumLayers * kNumKvHeads * 2048 * 64 / 2
  | .gammaAttn | .gammaFfn => kLlmHidden
  | .lmheadWgt => kLlmHidden * kVocabSize / 2
  | .lmheadMeta => kLlmHidden * kVocabSize / 32 * 2
  | .logits => kVocabSize * 4

/-- `max_seq_` and the buffer objects, with the bytes of each. -/
structure RunnerBuffers where
  maxSeq : ℕ
  bytes : BufferName → ℕ
  bo : BufferName → FpgaBuffer

/-- A buffer object is changed. -/
def RunnerBuffers.modify (r : RunnerBuffers) (buffer : BufferName)
    (f : FpgaBuffer → FpgaBuffer) : RunnerBuffers :=
  { r with bo := Function.update r.bo buffer (f (r.bo buffer)) }

/-- `sync_to_device`. -/
def RunnerBuffers.sync (r : RunnerBuffers) (buffer : BufferName) : RunnerBuffers :=
  r.modify buffer fun b => b.syncToDevice (r.bytes buffer) 0

/-- `allocate_buffers`, where the new buffer objects hold `fresh`. -/
def allocateBuffers (fresh : BufferName → FpgaBuffer) (maxSeq : ℕ) :
    Except String RunnerBuffers :=
  if hwMaxSeq < maxSeq then
    .error "requested max_seq exceeds current hardware cap: model_max_seq=8192 hw_max_seq=2048"
  else
    .ok ⟨maxSeq, allocBytes maxSeq, fresh⟩

/-- `manifest.artifact_bytes.at`. -/
def artifactBytesAt (artifactBytes : String → Option ℕ) (name : String) : Except String ℕ :=
  match artifactBytes name with
  | some n => .ok n
  | none => .error "map::at"

/-- `require_fit`. -/
def requireFit (name : String) (have_ need : ℕ) : Except String Unit :=
  if have_ < need then .error ("BO too small for " ++ name) else .ok ()

/-- `require_fit`, for an artifact that is copied to a buffer object of its own. -/
def requireSingleFit (artifactBytes : String → Option ℕ) (bytes : BufferName → ℕ)
    (e : String × BufferName) : Except String Unit := do
  requireFit e.1 (bytes e.2) (← artifactBytesAt artifactBytes e.1)

/-- These artifacts, with their buffer objects. -/
def requiredFits : List (String × BufferName) :=
  [("vision_wgt.bin", .visionWgt), ("vision_meta.bin", .visionMeta),
    ("connector_wgt.bin", .connectorWgt), ("connector_meta.bin", .connectorMeta),
    ("weights_half0.bin", .decoderWgt0), ("weights_half1.bin", .decoderWgt1),
    ("meta_half0.bin", .decoderMeta0), ("meta_half1.bin", .decoderMeta1)]

/-- `require_fit`, for two artifacts that share a buffer object. -/
def requirePairFit (artifactBytes : String → Option ℕ) (name name0 name1 : String)
    (have_ : ℕ) : Except String Unit := do
  requireFit name have_
    ((← artifactBytesAt artifactBytes name0) + (← artifactBytesAt artifactBytes name1))

/-- `allocate_buffers`, for a manifest with these `artifact_bytes`. -/
def allocateBuffersFor (fresh : BufferName → FpgaBuffer) (maxSeq : ℕ)
    (artifactBytes : String → Option ℕ) : Except String RunnerBuffers := do
  let r ← allocateBuffers fresh maxSeq
  requiredFits.forM (requireSingleFit artifactBytes r.bytes)
  requirePairFit artifactBytes "lmhead_wgt halves" "lmhead_wgt_half0.bin"
    "lmhead_wgt_half1.bin" (r.bytes .lmheadWgt)
  requirePairFit artifactBytes "lmhead_meta halves" "lmhead_meta_half0.bin"
    "lmhead_meta_half1.bin" (r.bytes .lmheadMeta)
  pure r

/-! ### Loading -/

/-- The files of a directory that can be opened. -/
abbrev Files : Type := String → Option (List (BitVec 8))

/-- `file_size_or_throw`. -/
def fileSizeOrThrow (exportDir : String) (files : Files) (name : String) : Except String ℕ :=
  match files name with
  | some data => .ok data.length
  | none => .error ("failed to open artifact: " ++ exportDir ++ "/" ++ name)

/-- `load_file_into_bo`, for a file that is read to its end. -/
def loadFileIntoBo (exportDir : String) (files : Files) (name : String) (buffer : BufferName)
    (dstOffset : ℕ) (r : RunnerBuffers) : Except String RunnerBuffers :=
  match files name with
  | none => .error ("failed to open artifact: " ++ exportDir ++ "/" ++ name)
  | some data =>
      if r.bytes buffer < dstOffset ∨ r.bytes buffer - dstOffset < data.length then
        .error ("artifact does not fit BO: " ++ exportDir ++ "/" ++ name)
      else
        .ok (r.modify buffer fun b => b.memcpy dstOffset (fun i => data.getD i 0) data.length)

/-- The artifacts that have a buffer object of their own. -/
def singleArtifacts : List (String × BufferName) :=
  requiredFits ++ [("gamma_attn.bin", .gammaAttn), ("gamma_ffn.bin", .gammaFfn)]

/-- A file is copied to a buffer object of its own. -/
def loadSingle (exportDir : String) (files : Files) (r : RunnerBuffers)
    (e : String × BufferName) : Except String RunnerBuffers := do
  let r ← loadFileIntoBo exportDir files e.1 e.2 0 r
  pure (r.sync e.2)

/-- Two files are copied to one buffer object, one after the other. -/
def loadPair (exportDir : String) (files : Files) (name0 name1 : String) (buffer : BufferName)
    (r : RunnerBuffers) : Except String RunnerBuffers := do
  let offset ← fileSizeOrThrow exportDir files name0
  let r ← loadFileIntoBo exportDir files name0 buffer 0 r
  let r ← loadFileIntoBo exportDir files name1 buffer offset r
  pure (r.sync buffer)

/-- `load_export_artifacts`. -/
def loadExportArtifacts (exportDir : String) (files : Files) (r : RunnerBuffers) :
    Except String RunnerBuffers := do
  let r ← singleArtifacts.foldlM (loadSingle exportDir files) r
  let r ← loadPair exportDir files "lmhead_wgt_half0.bin" "lmhead_wgt_half1.bin" .lmheadWgt r
  loadPair exportDir files "lmhead_meta_half0.bin" "lmhead_meta_half1.bin" .lmheadMeta r

/-- The device sees these bytes in a buffer object. -/
def RunnerBuffers.Holds (r : RunnerBuffers) (buffer : BufferName) (data : List (BitVec 8)) :
    Prop :=
  ∀ i < data.length, data[i]? = some ((r.bo buffer).device i)

/-- The buffers are allocated for the artifacts, and all of these are copied to them
completely. -/
def LoadsCompletely (fresh : BufferName → FpgaBuffer) (maxSeq : ℕ) (exportDir : String)
    (files : Files) : Prop :=
  ∃ r r', allocateBuffersFor fresh maxSeq (fun name => (files name).map List.length) = .ok r
    ∧ loadExportArtifacts exportDir files r = .ok r'
    ∧ (∀ e ∈ singleArtifacts, ∃ data, files e.1 = some data ∧ r'.Holds e.2 data)
    ∧ (∃ data data', files "lmhead_wgt_half0.bin" = some data
        ∧ files "lmhead_wgt_half1.bin" = some data' ∧ r'.Holds .lmheadWgt (data ++ data'))
    ∧ ∃ data data', files "lmhead_meta_half0.bin" = some data
        ∧ files "lmhead_meta_half1.bin" = some data' ∧ r'.Holds .lmheadMeta (data ++ data')

/-! ### Artifacts that do not fit -/

/-- The first of some artifacts that is larger than its buffer object. -/
def misfit (bytes : BufferName → ℕ) (size : String → Option ℕ)
    (artifacts : List (String × BufferName)) : Option String :=
  (artifacts.find? fun e => (size e.1).any (bytes e.2 < ·)).map Prod.fst

section Misfit

variable {bytes : BufferName → ℕ} {size : String → Option ℕ} {name : String}

theorem requireSingleFit_eq {e : String × BufferName} {n : ℕ} (hn : size e.1 = some n) :
  requireSingleFit size bytes e = requireFit e.1 (bytes e.2) n
  := by
  rw [requireSingleFit, artifactBytesAt, hn]
  rfl

theorem misfit_append {artifacts rest : List (String × BufferName)}
    (h : misfit bytes size artifacts = some name) :
  misfit bytes size (artifacts ++ rest) = some name
  := by
  obtain ⟨e, he, rfl⟩ := Option.map_eq_some_iff.mp h
  rw [misfit, List.find?_append, he]
  rfl

/-- The loop over the artifacts of a manifest stops at the first that does not fit. -/
theorem forM_requireSingleFit {artifacts : List (String × BufferName)}
    (hsize : ∀ e ∈ artifacts, (size e.1).isSome = true)
    (h : misfit bytes size artifacts = some name) :
  artifacts.forM (requireSingleFit size bytes) = .error ("BO too small for " ++ name)
  := by
  induction artifacts with
  | nil => cases h
  | cons e rest ih =>
      obtain ⟨n, hn⟩ := Option.isSome_iff_exists.mp (hsize e (List.mem_cons_self ..))
      change (requireSingleFit size bytes e >>= fun _ =>
        rest.forM (requireSingleFit size bytes)) = _
      rw [requireSingleFit_eq hn, requireFit]
      rcases Nat.lt_or_ge (bytes e.2) n with hlt | hge
      · obtain rfl : e.1 = name := by simpa [misfit, hn, hlt] using h
        rw [if_pos hlt]
        rfl
      · rw [if_neg (Nat.not_lt.mpr hge)]
        apply ih (fun e' he' => hsize e' (List.mem_cons_of_mem e he'))
        simpa [misfit, hn, Nat.not_lt.mpr hge] using h

/-- A file is copied when it fits.  The sizes of the buffer objects stay as they are. -/
theorem loadFileIntoBo_of_le {exportDir : String} {files : Files} {buffer : BufferName}
    {dstOffset : ℕ} {r : RunnerBuffers} {data : List (BitVec 8)} (hdata : files name = some data)
    (hfit : dstOffset + data.length ≤ r.bytes buffer) :
  loadFileIntoBo exportDir files name buffer dstOffset r
    = .ok (r.modify buffer fun b => b.memcpy dstOffset (fun i => data.getD i 0) data.length)
  := by
  simp only [loadFileIntoBo, hdata]
  rw [if_neg (by omega)]

theorem loadFileIntoBo_of_lt {exportDir : String} {files : Files} {buffer : BufferName}
    {dstOffset : ℕ} {r : RunnerBuffers} {data : List (BitVec 8)} (hdata : files name = some data)
    (hlarge : r.bytes buffer < dstOffset + data.length) :
  loadFileIntoBo exportDir files name buffer dstOffset r
    = .error ("artifact does not fit BO: " ++ exportDir ++ "/" ++ name)
  := by
  simp only [loadFileIntoBo, hdata]
  rw [if_pos (by omega)]

/-- The loop that copies the artifacts stops there, too. -/
theorem foldlM_loadSingle {exportDir : String} {files : Files}
    {artifacts : List (String × BufferName)} {r : RunnerBuffers}
    (hfile : ∀ e ∈ artifacts, (files e.1).isSome = true)
    (h : misfit r.bytes (fun name => (files name).map List.length) artifacts = some name) :
  artifacts.foldlM (loadSingle exportDir files) r
    = .error ("artifact does not fit BO: " ++ exportDir ++ "/" ++ name)
  := by
  induction artifacts generalizing r with
  | nil => cases h
  | cons e rest ih =>
      obtain ⟨data, hdata⟩ := Option.isSome_iff_exists.mp (hfile e (List.mem_cons_self ..))
      rw [List.foldlM_cons, loadSingle]
      rcases Nat.lt_or_ge (r.bytes e.2) data.length with hlt | hge
      · obtain rfl : e.1 = name := by simpa [misfit, hdata, hlt] using h
        rw [loadFileIntoBo_of_lt hdata (by omega)]
        rfl
      · have hrest : misfit r.bytes (fun name => (files name).map List.length) rest
            = some name := by simpa [misfit, hdata, Nat.not_lt.mpr hge] using h
        rw [loadFileIntoBo_of_le hdata (by omega)]
        change rest.foldlM (loadSingle exportDir files) ((r.modify e.2 _).sync e.2) = _
        apply ih (fun e' he' => hfile e' (List.mem_cons_of_mem e he'))
        exact hrest

/-- Allocating for a manifest fails at the first artifact that does not fit. -/
theorem allocateBuffersFor_of_misfit {maxSeq : ℕ} (hcap : maxSeq ≤ hwMaxSeq)
    (fresh : BufferName → FpgaBuffer)
    (hsize : ∀ e ∈ requiredFits, (size e.1).isSome = true)
    (h : misfit (allocBytes maxSeq) size requiredFits = some name) :
  allocateBuffersFor fresh maxSeq size = .error ("BO too small for " ++ name)
  := by
  rw [allocateBuffersFor, allocateBuffers, if_neg (Nat.not_lt.mpr hcap)]
  change (requiredFits.forM (requireSingleFit size (allocBytes maxSeq)) >>= _) = _
  rw [forM_requireSingleFit hsize h]
  rfl

/-- Loading fails at the first artifact that does not fit. -/
theorem loadExportArtifacts_of_misfit {exportDir : String} {files : Files} {r : RunnerBuffers}
    (hfile : ∀ e ∈ singleArtifacts, (files e.1).isSome = true)
    (h : misfit r.bytes (fun name => (files name).map List.length) singleArtifacts
      = some name) :
  loadExportArtifacts exportDir files r
    = .error ("artifact does not fit BO: " ++ exportDir ++ "/" ++ name)
  := by
  rw [loadExportArtifacts, foldlM_loadSingle hfile h]
  rfl

end Misfit

/-- The artifacts, beside those of the vision model, that are larger than their buffer
objects. -/
def tooLarge : List String :=
  ["meta_half0.bin", "meta_half1.bin", "gamma_attn.bin", "gamma_ffn.bin"]

/-- Of the artifacts of a prescribed size just these do not fit. -/
theorem lt_allocBytes_iff (maxSeq : ℕ) {e : String × BufferName} {n : ℕ}
    (he : e ∈ singleArtifacts) (hn : (e.1, n) ∈ fixedSizes) :
  allocBytes maxSeq e.2 < n ↔ e.1 ∈ tooLarge
  := by
  have hbytes : allocBytes maxSeq e.2 = allocBytes 0 e.2 := by
    simp only [singleArtifacts, requiredFits, List.cons_append, List.nil_append, List.mem_cons,
      List.not_mem_nil, or_false] at he
    rcases he with rfl | rfl | rfl | rfl | rfl | rfl | rfl | rfl | rfl | rfl <;> rfl
  have htable : ∀ e ∈ singleArtifacts, ∀ f ∈ fixedSizes, f.1 = e.1 →
      (allocBytes 0 e.2 < f.2 ↔ e.1 ∈ tooLarge) := by decide +kernel
  rw [hbytes]
  apply htable e he (e.1, n) hn rfl

theorem isSome_of_acceptedSizes {size : String → Option ℕ} (h : AcceptedSizes size) :
  ∀ e ∈ singleArtifacts, (size e.1).isSome = true
  := by
  have hnames : ∀ e ∈ singleArtifacts, e.1 = "vision_wgt.bin" ∨ e.1 = "vision_meta.bin"
      ∨ e.1 ∈ fixedSizes.map Prod.fst := by decide
  intro e he
  rcases hnames e he with hname | hname | hname
  · obtain ⟨n, hn, -⟩ := h.visionWgt
    rw [hname, hn, Option.isSome_some]
  · obtain ⟨n, hn, -⟩ := h.visionMeta
    rw [hname, hn, Option.isSome_some]
  · obtain ⟨f, hf, heq⟩ := List.mem_map.mp hname
    rw [← heq, h.fixed f hf, Option.isSome_some]

/-- The first artifact of an accepted export that does not fit. -/
theorem misfit_of_acceptedSizes (maxSeq : ℕ) {size : String → Option ℕ}
    (h : AcceptedSizes size) :
  ∃ name ∈ ["vision_wgt.bin", "vision_meta.bin", "meta_half0.bin"],
    misfit (allocBytes maxSeq) size requiredFits = some name
      ∧ misfit (allocBytes maxSeq) size singleArtifacts = some name
  := by
  obtain ⟨w, hw, -⟩ := h.visionWgt
  obtain ⟨m, hm, -⟩ := h.visionMeta
  have hany : ∀ e ∈ singleArtifacts, e.1 ∈ fixedSizes.map Prod.fst →
      (size e.1).any (allocBytes maxSeq e.2 < ·) = decide (e.1 ∈ tooLarge) := by
    intro e he hfixed
    obtain ⟨f, hf, heq⟩ := List.mem_map.mp hfixed
    rw [← heq, h.fixed f hf, Option.any_some, decide_eq_decide, heq]
    apply lt_allocBytes_iff maxSeq he
    rw [← heq]
    exact hf
  have hcw := hany ("connector_wgt.bin", .connectorWgt) (by decide) (by decide)
  have hcm := hany ("connector_meta.bin", .connectorMeta) (by decide) (by decide)
  have hw0 := hany ("weights_half0.bin", .decoderWgt0) (by decide) (by decide)
  have hw1 := hany ("weights_half1.bin", .decoderWgt1) (by decide) (by decide)
  have hm0 := hany ("meta_half0.bin", .decoderMeta0) (by decide) (by decide)
  suffices hfirst : ∃ name ∈ ["vision_wgt.bin", "vision_meta.bin", "meta_half0.bin"],
      misfit (allocBytes maxSeq) size requiredFits = some name by
    obtain ⟨name, hname, hmisfit⟩ := hfirst
    use name, hname, hmisfit
    apply misfit_append hmisfit
  rcases Nat.lt_or_ge (allocBytes maxSeq .visionWgt) w with hlarge | hfit
  · use "vision_wgt.bin"
    simp [misfit, requiredFits, hw, hlarge]
  · rcases Nat.lt_or_ge (allocBytes maxSeq .visionMeta) m with hlarge' | hfit'
    · use "vision_meta.bin"
      simp [misfit, requiredFits, hw, hm, Nat.not_lt.mpr hfit, hlarge']
    · use "meta_half0.bin"
      simp [misfit, requiredFits, hw, hm, hcw, hcm, hw0, hw1, hm0, Nat.not_lt.mpr hfit,
        Nat.not_lt.mpr hfit', tooLarge]

/-- An accepted export is never loaded: one of three artifacts does not fit, when the buffers
are allocated for a manifest and when the artifacts are copied. -/
theorem acceptedExport_notLoadable {F : Type} [PyFloat F] {dir : ExportDir F}
    (hpass : dir.ReportsPass) {maxSeq : ℕ} (hcap : maxSeq ≤ hwMaxSeq)
    (fresh : BufferName → FpgaBuffer) (exportDir : String) :
  (∃ name ∈ ["vision_wgt.bin", "vision_meta.bin", "meta_half0.bin"],
    allocateBuffersFor fresh maxSeq dir.size = .error ("BO too small for " ++ name)
      ∧ (allocateBuffers fresh maxSeq >>= loadExportArtifacts exportDir dir.files)
        = .error ("artifact does not fit BO: " ++ exportDir ++ "/" ++ name))
    ∧ ¬ LoadsCompletely fresh maxSeq exportDir dir.files
  := by
  have hsizes := ExportDir.acceptedSizes hpass
  have hsome := isSome_of_acceptedSizes hsizes
  obtain ⟨name, hname, hfit, hload⟩ := misfit_of_acceptedSizes maxSeq hsizes
  have hfor := allocateBuffersFor_of_misfit hcap fresh
    (fun e he => hsome e (List.mem_append_left _ he)) hfit
  constructor
  · use name, hname, hfor
    rw [allocateBuffers, if_neg (Nat.not_lt.mpr hcap)]
    apply loadExportArtifacts_of_misfit _ hload
    intro e he
    rw [← Option.isSome_map]
    apply hsome e he
  · rintro ⟨r, -, hok, -⟩
    cases hok.symm.trans hfor

/-- The export with twelve blocks is not loaded for one token. -/
theorem acceptedExport_notLoadable_sample :
  ¬ LoadsCompletely (fun _ => ⟨fun _ => 0, fun _ => 0⟩) 1 "export" sampleExport.files
  := (acceptedExport_notLoadable reportsPass_sampleExport (by decide) _ _).2

/-- Its metadata does not fit: it is twice as large as the buffer object. -/
theorem not_loadsCompletely_sampleExport :
  sampleExport.ReportsPass
    ∧ allocateBuffersFor (fun _ => ⟨fun _ => 0, fun _ => 0⟩) 2048 sampleExport.size
      = .error "BO too small for meta_half0.bin"
    ∧ ¬ LoadsCompletely (fun _ => ⟨fun _ => 0, fun _ => 0⟩) 2048 "export" sampleExport.files
  := by
  have herror : allocateBuffersFor (fun _ => ⟨fun _ => 0, fun _ => 0⟩) 2048 sampleExport.size
      = .error "BO too small for meta_half0.bin" := by
    rw [size_sampleExport]
    have hsome : ∀ e ∈ requiredFits, (sampleSize e.1).isSome = true := by decide +kernel
    have hfirst : misfit (allocBytes 2048) sampleSize requiredFits = some "meta_half0.bin" := by
      decide +kernel
    exact allocateBuffersFor_of_misfit (Nat.le_refl _) _ hsome hfirst
  refine ⟨reportsPass_sampleExport, herror, ?_⟩
  rintro ⟨r, -, hok, -⟩
  cases hok.symm.trans herror

end Kv260
