import Mathlib.Algebra.Ring.Int.Defs
import SmolVlm2Kv260.Validation.Py
import SmolVlm2Kv260.Validation.Report

/-!
# The check of an export

`check_hardware_export.py` compares the manifest of an export and the sizes of its files with
the shapes of the model.  It notes what does not agree; an export is accepted when nothing was
noted and no exception was raised.
-/

set_option autoImplicit false

namespace Kv260.Checker

open Py

/-! ### Shapes -/

abbrev axi256Bytes : ℤ := 32
abbrev c : ℤ := 960
abbrev hKv : ℤ := 5
abbrev dHead : ℤ := 64
abbrev ffnDim : ℤ := 2560
abbrev numLayers : ℤ := 32
abbrev vocab : ℤ := 49280
abbrev vitTokens : ℤ := 1024
abbrev vitC : ℤ := 768
abbrev vitQkv : ℤ := 2304
abbrev vitFfn : ℤ := 3072
abbrev imageTokens : ℤ := 64
abbrev connectorIn : ℤ := 12288
abbrev connectorOut : ℤ := 960

/-- `DECODER_MATRICES`. -/
def decoderMatrices : List (String × ℤ × ℤ) :=
  [("qkv", c, c + hKv * dHead * 2), ("attn_out", c, c), ("gate_up", c, ffnDim * 2),
    ("down", ffnDim, c)]

/-- `packed_w4_bytes`. -/
def packedW4Bytes (k n : ℤ) : ℤ := (k * n).fdiv 2

/-- `meta_bytes`. -/
def metaBytes (k n : ℤ) : ℤ := n * k.fdiv 32 * 2

def decoderHalfWgtBytes : ℤ :=
  (decoderMatrices.map fun (m : String × ℤ × ℤ) => packedW4Bytes m.2.1 m.2.2).sum.fdiv 2

def decoderHalfMetaBytes : ℤ :=
  (decoderMatrices.map fun (m : String × ℤ × ℤ) => metaBytes m.2.1 m.2.2).sum.fdiv 2

theorem decoderHalfWgtBytes_eq :
  decoderHalfWgtBytes = 2457600
  := by decide

theorem decoderHalfMetaBytes_eq :
  decoderHalfMetaBytes = 307200
  := by decide

/-- `required_artifacts`. -/
def requiredArtifacts : List String :=
  ["vision_wgt.bin", "vision_meta.bin", "connector_wgt.bin", "connector_meta.bin",
    "weights_half0.bin", "weights_half1.bin", "meta_half0.bin", "meta_half1.bin",
    "gamma_attn.bin", "gamma_ffn.bin", "lmhead_wgt_half0.bin", "lmhead_wgt_half1.bin",
    "lmhead_meta_half0.bin", "lmhead_meta_half1.bin"]

/-! ### Steps of the check -/

abbrev Check (α : Type) : Type := Report PyError String α

section Steps

variable {F : Type} [PyFloat F]

/-- `packed_w4_bytes`, on numbers of the manifest. -/
def packedW4BytesOf (k n : Num F) : Except PyError (Num F) := do
  (← k.mul n).floorDiv (.int 2)

/-- `meta_bytes`, on numbers of the manifest. -/
def metaBytesOf (k n : Num F) : Except PyError (Num F) := do
  (← n.mul (← k.floorDiv (.int 32))).mul (.int 2)

/-- `expect_eq`. -/
def expectEq (actual expected : Num F) (msg : String) : Check Unit :=
  .expect (actual.eq expected) s!"{msg}: got {actual.repr}, expected {expected.repr}"

/-- `v[key]`. -/
def item (v : Json F) (key : String) : Check (Json F) := .ofExcept (v.getItem key)

/-- `v[key]`, in a place where it has to be a number. -/
def numItem (v : Json F) (key : String) : Check (Num F) := do
  .ofExcept (← item v key).num

/-- `v[key] * AXI256_BYTES`, in a place where it has to be a number. -/
def axiItem (v : Json F) (key : String) : Check (Num F) := do
  .ofExcept (← .ofExcept ((← item v key).mulInt axi256Bytes)).num

/-- `key in v`, for all the keys, up to the first that is not. -/
def hasKeys (v : Json F) : List String → Check Bool
  | [] => pure true
  | key :: keys => do
      if ← .ofExcept (v.contains key) then hasKeys v keys else pure false

/-- `v[key] == n`, for all the pairs, up to the first that differs. -/
def hasItems (v : Json F) : List (String × ℤ) → Check Bool
  | [] => pure true
  | (key, n) :: rest => do
      if (← item v key).eq (.int n) then hasItems v rest else pure false

/-- `v.get(key) == w`. -/
def getEq (v : Json F) (key : String) (w : Json F) : Check Bool := do
  pure ((← .ofExcept (v.get key .none)).eq w)

variable (size : String → Option ℕ)

/-- `size`, which raises an exception when the file is missing. -/
def fileSize (name : String) : Check ℤ :=
  match size name with
  | some n => pure n
  | none => .ofExcept (.error (.fileNotFoundError name))

/-- `expect_eq`, for the size of a file. -/
def expectSize (name : String) (expected : ℤ) (msg : String) : Check Unit := do
  let actual ← fileSize size name
  .expect (actual == expected) s!"{msg}: got {actual}, expected {expected}"

/-- `expect`, for a condition on the size of a file. -/
def expectThat (name : String) (cond : ℤ → Bool) (msg : String) : Check Unit := do
  .expect (cond (← fileSize size name)) msg

/-- `expect`, for two files of the same size. -/
def expectSameSize (name name' msg : String) : Check Unit := do
  let n ← fileSize size name
  let n' ← fileSize size name'
  .expect (n == n') msg

/-! ### The sections of the manifest -/

/-- The status, and whether all artifacts are there. -/
def checkArtifacts (payload : Json F) : Check Unit := do
  .expect (← getEq payload "kv260_status" (.str "native_w4a8_ready_host_folded_awq"))
    "kv260_status is not native_w4a8_ready_host_folded_awq"
  let artifacts ← .ofExcept (← .ofExcept (payload.get "artifacts" (.list []))).elements
  let names ← artifacts.mapM fun name =>
    match name with
    | .str s => (pure s : Check String)
    | _ => .ofExcept (.error .typeError)
  names.eraseDups.forM fun name => .expect (size name).isSome s!"missing artifact: {name}"
  requiredArtifacts.forM fun name =>
    .expect (size name).isSome s!"missing required artifact: {name}"

/-- An entry of `decoder_layers`. -/
def checkDecoderLayer (layers : List (Json F)) (idx : ℕ) (layer : Json F) : Check Unit := do
  .expect ((← item layer "layer").eq (.int idx)) s!"decoder layer index mismatch at {idx}"
  let hasAxi ← hasKeys layer ["w_offset_axi256", "meta_offset_axi256"]
  .expect hasAxi s!"decoder layer {idx} missing axi offsets"
  if hasAxi then
    .expect ((← item layer "w_offset_bytes").eq
        (← .ofExcept ((← item layer "w_offset_axi256").mulInt axi256Bytes)))
      s!"decoder layer {idx} weight offset bytes/axi mismatch"
    .expect ((← item layer "meta_offset_bytes").eq
        (← .ofExcept ((← item layer "meta_offset_axi256").mulInt axi256Bytes)))
      s!"decoder layer {idx} meta offset bytes/axi mismatch"
  match layers[idx + 1]? with
  | none => pure ()
  | some nxt =>
      if ← hasKeys layer ["w_offset_bytes", "meta_offset_bytes"] then
        expectEq
          (← .ofExcept ((← numItem nxt "w_offset_bytes").sub (← numItem layer "w_offset_bytes")))
          (.int decoderHalfWgtBytes) s!"decoder layer {idx} packed half span mismatch"
        expectEq
          (← .ofExcept
            ((← numItem nxt "meta_offset_bytes").sub (← numItem layer "meta_offset_bytes")))
          (.int decoderHalfMetaBytes) s!"decoder layer {idx} meta half span mismatch"

/-- The end of the last entry of `decoder_layers`. -/
def checkLastDecoderLayer (last : Json F) : Check Unit := do
  if ← hasKeys last ["w_offset_bytes", "meta_offset_bytes"] then
    expectEq
      (← .ofExcept ((← numItem last "w_offset_bytes").add (.int decoderHalfWgtBytes)))
      (.int (← fileSize size "weights_half0.bin"))
      "decoder packed half file final span mismatch"
    expectEq
      (← .ofExcept ((← numItem last "meta_offset_bytes").add (.int decoderHalfMetaBytes)))
      (.int (← fileSize size "meta_half0.bin"))
      "decoder meta half file final span mismatch"

/-- `decoder_layers`. -/
def checkDecoderLayers (payload : Json F) : Check Unit := do
  let layers ← .ofExcept (← .ofExcept (payload.get "decoder_layers" (.list []))).elements
  .expect (layers.length == numLayers)
    s!"decoder layer count {layers.length} != {numLayers}"
  layers.zipIdx.forM fun e => checkDecoderLayer layers e.2 e.1
  match layers.getLast? with
  | none => pure ()
  | some last => checkLastDecoderLayer size last

/-- The files of the decoder. -/
def checkDecoderFiles : Check Unit := do
  expectSameSize size "weights_half0.bin" "weights_half1.bin"
    "decoder weight halves size mismatch"
  expectSameSize size "meta_half0.bin" "meta_half1.bin" "decoder meta halves size mismatch"
  expectSize size "weights_half0.bin" (decoderHalfWgtBytes * numLayers)
    "decoder weight half total size mismatch"
  expectSize size "meta_half0.bin" (decoderHalfMetaBytes * numLayers)
    "decoder meta half total size mismatch"
  expectThat size "gamma_attn.bin" (· == numLayers * c) "gamma_attn.bin size mismatch"
  expectThat size "gamma_ffn.bin" (· == numLayers * c) "gamma_ffn.bin size mismatch"

/-- `connector`. -/
def checkConnector (payload : Json F) : Check Unit := do
  let connector ← .ofExcept (payload.get "connector" (.dict []))
  .expect (← getEq connector "M" (.int imageTokens)) "connector M mismatch"
  .expect (← getEq connector "K" (.int connectorIn)) "connector K mismatch"
  .expect (← getEq connector "N" (.int connectorOut)) "connector N mismatch"
  .expect (← getEq connector "w_offset_axi256" (.int 0)) "connector weight offset expected 0"
  .expect (← getEq connector "meta_offset_axi256" (.int 0)) "connector meta offset expected 0"

/-- The files of the connector. -/
def checkConnectorFiles : Check Unit := do
  expectSize size "connector_wgt.bin" (packedW4Bytes connectorIn connectorOut)
    "connector_wgt.bin size mismatch"
  expectSize size "connector_meta.bin" (metaBytes connectorIn connectorOut)
    "connector_meta.bin size mismatch"

/-- The first entry of `vision_layers`. -/
def checkPatchEmbed (patch : Json F) : Check Unit := do
  .expect (← getEq patch "name" (.str "patch_embed")) "vision first entry is not patch_embed"
  let m ← getEq patch "M" (.int vitTokens)
  let k ← getEq patch "K" (.int vitC)
  let n ← getEq patch "N" (.int vitC)
  .expect (m && k && n) "patch_embed shape mismatch"

/-- An entry of `vision_layers`: its keys, and where the next one begins. -/
def checkVisionLayer (layers : List (Json F)) (idx : ℕ) (layer : Json F) : Check Unit := do
  ["name", "w_offset_axi256", "meta_offset_axi256", "M", "K", "N"].forM fun key => do
    .expect (← .ofExcept (layer.contains key)) s!"vision layer {idx} missing {key}"
  if ← hasKeys layer ["w_offset_axi256", "meta_offset_axi256", "K", "N"] then
    .expect (← axiItem layer "w_offset_axi256").nonneg
      s!"vision layer {idx} negative weight offset"
    .expect (← axiItem layer "meta_offset_axi256").nonneg
      s!"vision layer {idx} negative meta offset"
    match layers[idx + 1]? with
    | none => pure ()
    | some nxt =>
        let k ← numItem layer "K"
        let n ← numItem layer "N"
        let expectedW ← .ofExcept (packedW4BytesOf k n)
        let expectedM ← .ofExcept (metaBytesOf k n)
        expectEq
          (← .ofExcept
            ((← axiItem nxt "w_offset_axi256").sub (← axiItem layer "w_offset_axi256")))
          expectedW s!"vision layer {idx} packed span mismatch"
        expectEq
          (← .ofExcept
            ((← axiItem nxt "meta_offset_axi256").sub (← axiItem layer "meta_offset_axi256")))
          expectedM s!"vision layer {idx} meta span mismatch"

/-- An entry of `vision_layers` ends where the next one begins, the last one with the file. -/
def checkVisionSpan (visionWBytes visionMBytes : ℤ) (layers : List (Json F)) (idx : ℕ)
    (layer : Json F) : Check Unit := do
  let curW ← axiItem layer "w_offset_axi256"
  let curM ← axiItem layer "meta_offset_axi256"
  let nextW ← match layers[idx + 1]? with
    | none => pure (.int visionWBytes)
    | some nxt => axiItem nxt "w_offset_axi256"
  let nextM ← match layers[idx + 1]? with
    | none => pure (.int visionMBytes)
    | some nxt => axiItem nxt "meta_offset_axi256"
  expectEq (← .ofExcept (nextW.sub curW))
    (← .ofExcept (packedW4BytesOf (← numItem layer "K") (← numItem layer "N")))
    s!"vision layer {idx} packed file span mismatch"
  expectEq (← .ofExcept (nextM.sub curM))
    (← .ofExcept (metaBytesOf (← numItem layer "K") (← numItem layer "N")))
    s!"vision layer {idx} meta file span mismatch"

/-- The name of an entry ends as expected. -/
def expectSuffix (g : ℕ) (layer : Json F) (suffix : String) : Check Unit := do
  .expect (← .ofExcept ((← item layer "name").endsWith ("." ++ suffix)))
    s!"vision block group {g} missing {suffix}"

/-- The shape of an entry is as expected. -/
def expectShape (g : ℕ) (layer : Json F) (name : String) (k n : ℤ) : Check Unit := do
  .expect (← hasItems layer [("K", k), ("N", n)]) s!"vision block group {g} {name} shape mismatch"

/-- The four entries of block `g`, unless the list ends before. -/
def checkVisionGroup (layers : List (Json F)) (g : ℕ) : Check Unit := do
  match layers.drop (1 + g * 4) with
  | qkv :: attnOut :: ffnUp :: ffnDown :: _ =>
      expectSuffix g qkv "qkv"
      expectSuffix g attnOut "attn_out"
      expectSuffix g ffnUp "ffn_up"
      expectSuffix g ffnDown "ffn_down"
      expectShape g qkv "qkv" vitC vitQkv
      expectShape g attnOut "attn_out" vitC vitC
      expectShape g ffnUp "ffn_up" vitC vitFfn
      expectShape g ffnDown "ffn_down" vitFfn vitC
  | _ => pure () -- the loop over the blocks is left, and no later block has four entries

/-- `vision_layers`. -/
def checkVisionLayers (payload : Json F) : Check Unit := do
  let layers ← .ofExcept (← .ofExcept (payload.get "vision_layers" (.list []))).elements
  .expect (decide (1 + 12 * 4 ≤ layers.length)) "vision layer manifest looks incomplete"
  match layers with
  | [] => pure ()
  | patch :: _ =>
      checkPatchEmbed patch
      layers.zipIdx.forM fun e => checkVisionLayer layers e.2 e.1
      let visionWBytes ← fileSize size "vision_wgt.bin"
      let visionMBytes ← fileSize size "vision_meta.bin"
      layers.zipIdx.forM fun e => checkVisionSpan visionWBytes visionMBytes layers e.2 e.1
      let blocks := (min (layers.length - 1) (1 + 12 * 4 - 1) + 3) / 4
      (List.range blocks).forM (checkVisionGroup layers)

/-- The remaining files. -/
def checkOtherFiles : Check Unit := do
  expectThat size "vision_wgt.bin" (0 < ·) "vision_wgt.bin empty"
  expectThat size "vision_meta.bin" (0 < ·) "vision_meta.bin empty"
  expectThat size "connector_wgt.bin" (0 < ·) "connector_wgt.bin empty"
  expectThat size "connector_meta.bin" (0 < ·) "connector_meta.bin empty"
  expectSameSize size "lmhead_wgt_half0.bin" "lmhead_wgt_half1.bin"
    "lmhead weight halves size mismatch"
  expectSameSize size "lmhead_meta_half0.bin" "lmhead_meta_half1.bin"
    "lmhead meta halves size mismatch"
  expectThat size "lmhead_wgt_half0.bin" (· * 2 == (c * vocab).fdiv 2)
    "lmhead packed weight total size mismatch"
  expectThat size "lmhead_meta_half0.bin" (· * 2 == (c * vocab).fdiv 32 * 2)
    "lmhead packed meta total size mismatch"

/-- The checks of `main`, once the manifest is parsed. -/
def checkPayload (payload : Json F) : Check Unit := do
  checkArtifacts size payload
  checkDecoderLayers size payload
  checkDecoderFiles size
  checkConnector payload
  checkConnectorFiles size
  checkVisionLayers size payload
  checkOtherFiles size

end Steps

/-! ### Exports -/

/-- A directory with an export: its manifest, if there is one, as `json.loads` gives it, and
its files. -/
structure ExportDir (F : Type) where
  manifestPath : String
  manifest : Option (Except PyError (Json F))
  files : String → Option (List (BitVec 8))

namespace ExportDir

variable {F : Type} [PyFloat F] (dir : ExportDir F)

/-- The size of a file, unless it is missing. -/
def size (name : String) : Option ℕ := (dir.files name).map List.length

/-- `main`. -/
def check : Check Unit :=
  match dir.manifest with
  | none => .note s!"missing manifest: {dir.manifestPath}"
  | some payload => do checkPayload dir.size (← .ofExcept payload)

/-- `main` reports `PASS`. -/
def ReportsPass : Prop := dir.check.Passes ()

/-- The report of an export is that of its manifest. -/
theorem reportsPass_iff :
  dir.ReportsPass
    ↔ ∃ payload, dir.manifest = some (.ok payload) ∧ (checkPayload dir.size payload).Passes ()
  := by
  rcases hmanifest : dir.manifest with _ | payload
  · simp only [ReportsPass, check, hmanifest, reduceCtorEq, false_and, exists_false, iff_false]
    exact nofun
  · simp only [ReportsPass, check, hmanifest, Report.passes_bind, Report.passes_ofExcept,
      Option.some.injEq]

end ExportDir

/-! ### The sizes of accepted files -/

section Sizes

variable {size : String → Option ℕ} {name name' msg : String}

theorem passes_fileSize {n : ℤ} :
  (fileSize size name).Passes n ↔ ∃ k : ℕ, size name = some k ∧ n = k
  := by
  rcases h : size name with _ | k
  · simp only [fileSize, h, Report.passes_ofExcept, reduceCtorEq, false_and, exists_false]
  · simp only [fileSize, h, Report.passes_pure, Option.some.injEq, exists_eq_left']
    rw [eq_comm]

theorem passes_expectThat {cond : ℤ → Bool} :
  (expectThat size name cond msg).Passes () ↔ ∃ k : ℕ, size name = some k ∧ cond k = true
  := by
  simp only [expectThat, Report.passes_bind, passes_fileSize, Report.passes_expect]
  constructor
  · rintro ⟨_, ⟨k, hk, rfl⟩, hcond⟩
    use k, hk
  · rintro ⟨k, hk, hcond⟩
    use k, ⟨k, hk, rfl⟩

theorem passes_expectSize {expected : ℤ} :
  (expectSize size name expected msg).Passes () ↔ ∃ k : ℕ, size name = some k ∧ (k : ℤ) = expected
  := by
  simp only [expectSize, Report.passes_bind, passes_fileSize, Report.passes_expect, beq_iff_eq]
  constructor
  · rintro ⟨_, ⟨k, hk, rfl⟩, hcond⟩
    use k, hk
  · rintro ⟨k, hk, hcond⟩
    use k, ⟨k, hk, rfl⟩

theorem passes_expectSameSize :
  (expectSameSize size name name' msg).Passes ()
    ↔ ∃ k : ℕ, size name = some k ∧ size name' = some k
  := by
  simp only [expectSameSize, Report.passes_bind, passes_fileSize, Report.passes_expect,
    beq_iff_eq]
  constructor
  · rintro ⟨_, ⟨k, hk, rfl⟩, _, ⟨k', hk', rfl⟩, heq⟩
    obtain rfl : k = k' := by exact_mod_cast heq
    use k, hk
  · rintro ⟨k, hk, hk'⟩
    use k, ⟨k, hk, rfl⟩, k, ⟨k, hk', rfl⟩

end Sizes

/-- The files whose sizes the check prescribes, all but those of the vision model. -/
def fixedSizes : List (String × ℕ) :=
  [("connector_wgt.bin", 5898240), ("connector_meta.bin", 737280),
    ("weights_half0.bin", 78643200), ("weights_half1.bin", 78643200),
    ("meta_half0.bin", 9830400), ("meta_half1.bin", 9830400), ("gamma_attn.bin", 30720),
    ("gamma_ffn.bin", 30720), ("lmhead_wgt_half0.bin", 11827200),
    ("lmhead_wgt_half1.bin", 11827200), ("lmhead_meta_half0.bin", 1478400),
    ("lmhead_meta_half1.bin", 1478400)]

/-- The files have the sizes of an accepted export. -/
structure AcceptedSizes (size : String → Option ℕ) : Prop where
  fixed : ∀ e ∈ fixedSizes, size e.1 = some e.2
  visionWgt : ∃ n, size "vision_wgt.bin" = some n ∧ 0 < n
  visionMeta : ∃ n, size "vision_meta.bin" = some n ∧ 0 < n

/-- What the sections of the check say about the sizes. -/
theorem acceptedSizes_of_passes {size : String → Option ℕ}
    (hdecoder : (checkDecoderFiles size).Passes ())
    (hconnector : (checkConnectorFiles size).Passes ())
    (hother : (checkOtherFiles size).Passes ()) :
  AcceptedSizes size
  := by
  simp only [checkDecoderFiles, Report.passes_seq, passes_expectSameSize, passes_expectSize,
    passes_expectThat, beq_iff_eq, decoderHalfWgtBytes_eq, decoderHalfMetaBytes_eq] at hdecoder
  simp only [checkConnectorFiles, Report.passes_seq, passes_expectSize] at hconnector
  simp only [checkOtherFiles, Report.passes_seq, passes_expectSameSize, passes_expectThat,
    beq_iff_eq, decide_eq_true_eq] at hother
  obtain ⟨⟨w, hw0, hw1⟩, ⟨m, hm0, hm1⟩, ⟨w', hw, hwsize⟩, ⟨m', hm, hmsize⟩,
    ⟨gammaAttn, hattn, hattnsize⟩, gammaFfn, hffn, hffnsize⟩ := hdecoder
  obtain ⟨⟨cw, hcw, hcwsize⟩, cm, hcm, hcmsize⟩ := hconnector
  obtain ⟨hvisionW, hvisionM, -, -, ⟨lw, hlw0, hlw1⟩, ⟨lm, hlm0, hlm1⟩, ⟨lw', hlw, hlwsize⟩,
    lm', hlm, hlmsize⟩ := hother
  -- the halves of which one size is prescribed
  obtain rfl : w' = w := Option.some.inj (hw.symm.trans hw0)
  obtain rfl : m' = m := Option.some.inj (hm.symm.trans hm0)
  obtain rfl : lw' = lw := Option.some.inj (hlw.symm.trans hlw0)
  obtain rfl : lm' = lm := Option.some.inj (hlm.symm.trans hlm0)
  have hsize : ∀ {name : String} {k : ℕ} {bytes : ℤ} (n : ℕ), size name = some k →
      (k : ℤ) = bytes → bytes = n → size name = some n := by
    intro name k bytes n hk hbytes hn
    obtain rfl : k = n := by omega
    exact hk
  have hhalf : ∀ {k : ℕ} {bytes : ℤ}, (k : ℤ) * 2 = bytes → (k : ℤ) = bytes.fdiv 2 := by
    intro k bytes h
    rw [← h, Int.mul_fdiv_cancel _ (by decide)]
  constructor
  · simp only [fixedSizes, List.forall_mem_cons]
    exact ⟨hsize _ hcw hcwsize (by decide), hsize _ hcm hcmsize (by decide),
      hsize _ hw0 hwsize (by decide), hsize _ hw1 hwsize (by decide),
      hsize _ hm0 hmsize (by decide), hsize _ hm1 hmsize (by decide),
      hsize _ hattn hattnsize (by decide), hsize _ hffn hffnsize (by decide),
      hsize _ hlw0 (hhalf hlwsize) (by decide), hsize _ hlw1 (hhalf hlwsize) (by decide),
      hsize _ hlm0 (hhalf hlmsize) (by decide), hsize _ hlm1 (hhalf hlmsize) (by decide), nofun⟩
  · obtain ⟨n, hn, hpos⟩ := hvisionW
    exact ⟨n, hn, by omega⟩
  · obtain ⟨n, hn, hpos⟩ := hvisionM
    exact ⟨n, hn, by omega⟩

/-- The files of an accepted export have these sizes. -/
theorem ExportDir.acceptedSizes {F : Type} [PyFloat F] {dir : ExportDir F}
    (h : dir.ReportsPass) :
  AcceptedSizes dir.size
  := by
  obtain ⟨payload, -, h⟩ := dir.reportsPass_iff.mp h
  simp only [checkPayload, Report.passes_seq] at h
  obtain ⟨-, -, hdecoder, -, hconnector, -, hother⟩ := h
  apply acceptedSizes_of_passes hdecoder hconnector hother

end Kv260.Checker

namespace Kv260

open Py Checker

/-! ### An accepted export -/

/-- The entry of a decoder layer. -/
def decoderEntry (layer : ℕ) : Json Empty :=
  .dict [("layer", .int layer), ("w_offset_bytes", .int (2457600 * layer)),
    ("meta_offset_bytes", .int (307200 * layer)), ("w_offset_axi256", .int (76800 * layer)),
    ("meta_offset_axi256", .int (9600 * layer))]

/-- The entry of a GEMM. -/
def gemmEntry (name : String) (w m rows k n : ℤ) : Json Empty :=
  .dict [("name", .str name), ("w_offset_axi256", .int w), ("meta_offset_axi256", .int m),
    ("M", .int rows), ("K", .int k), ("N", .int n)]

/-- The four entries of a block of the vision model. -/
def blockEntries (block : ℕ) : List (Json Empty) :=
  let w : ℤ := 9216 + 110592 * block
  let m : ℤ := 1152 + 13824 * block
  [gemmEntry s!"blk.{block}.qkv" w m 1024 768 2304,
    gemmEntry s!"blk.{block}.attn_out" (w + 27648) (m + 3456) 1024 768 768,
    gemmEntry s!"blk.{block}.ffn_up" (w + 36864) (m + 4608) 1024 768 3072,
    gemmEntry s!"blk.{block}.ffn_down" (w + 73728) (m + 9216) 1024 3072 768]

/-- The manifest of a model with twelve blocks. -/
def sampleManifest : Json Empty :=
  .dict [("kv260_status", .str "native_w4a8_ready_host_folded_awq"),
    ("decoder_layers", .list ((List.range 32).map decoderEntry)),
    ("vision_layers",
      .list (gemmEntry "patch_embed" 0 0 1024 768 768 :: (List.range 12).flatMap blockEntries)),
    ("connector", gemmEntry "connector.projector" 0 0 64 12288 960),
    ("artifacts", .list (requiredArtifacts.map .str))]

/-- The sizes of its files. -/
def sampleSize (name : String) : Option ℕ :=
  ((("vision_wgt.bin", 42762240) :: ("vision_meta.bin", 5345280) :: fixedSizes).find?
    fun e => e.1 == name).map Prod.snd

/-- An export with this manifest, of files of zeros. -/
def sampleExport : ExportDir Empty where
  manifestPath := "export/hardware_export_manifest.json"
  manifest := some (.ok sampleManifest)
  files name := (sampleSize name).map fun n => List.replicate n 0

theorem size_sampleExport :
  sampleExport.size = sampleSize
  := by
  funext name
  change ((sampleSize name).map fun n => List.replicate n 0).map List.length = sampleSize name
  rw [Option.map_map]
  simp only [Function.comp_def, List.length_replicate, Option.map_id']

theorem reportsPass_sampleExport :
  sampleExport.ReportsPass
  := by
  have hcheck : (checkPayload sampleSize sampleManifest).Passes () := by decide +kernel
  rw [← size_sampleExport] at hcheck
  exact sampleExport.reportsPass_iff.mpr ⟨sampleManifest, rfl, hcheck⟩

end Kv260
