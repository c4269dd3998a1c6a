import SmolVlm2Kv260.Export.AcceptedExport
import SmolVlm2Kv260.Export.AwqFold
import SmolVlm2Kv260.Text.Decimal

/-!
# The replay of an export

`replay_hardware_export.py` quantises the weights of a saved checkpoint again, and compares the
bytes with those of an export, at the offsets of its manifest.  The checkpoint holds the weights
of the modules, but the export has the effective ones, with the low-rank factors added and the
columns multiplied by the AWQ scales.
-/

set_option autoImplicit false

namespace Kv260

open Py Checker Report Blocks Matrix

/-! ### Saved states -/

/-- A tensor of a saved state, with the entries that it has if it is a matrix. -/
structure StateTensor where
  shape : List ℕ
  values : ℕ → ℕ → ℚ

/-- What `torch.load` gives: the tensors of `state_dict`. -/
abbrev StateDict : Type := List (String × StateTensor)

/-- The exceptions of `replay_hardware_export.py`. -/
inductive ReplayError where
  | py (e : PyError)
  | indexError
  | valueError
  | assertionError (message : String)
  | zeroDivisionError

/-- `key.endswith(suffix)`. -/
def keyEndsWith (suffix key : String) : Bool := suffix.toList.isSuffixOf key.toList

/-- `find_key`, with the tensor of the key. -/
def findKey (state : StateDict) (suffix : String) : Except ReplayError StateTensor :=
  match state.filter fun e => keyEndsWith suffix e.1 with
  | [e] => .ok e.2
  | found =>
      let preview := ", ".intercalate ((found.map Prod.fst).take 6)
      .error (.py (.keyError
        s!"expected one key ending with '{suffix}', found {found.length}: {preview}"))

/-- `tails`. -/
def textTails (layer : ℤ) (suffix : String) : List String :=
  ["text_model.layers." ++ toString layer ++ "." ++ suffix,
    "language_model.model.layers." ++ toString layer ++ "." ++ suffix,
    "model.text_model.layers." ++ toString layer ++ "." ++ suffix]

/-- The key has one of the tails. -/
def isTextKey (layer : ℤ) (suffix key : String) : Bool :=
  (textTails layer suffix).any fun tail => keyEndsWith tail key

/-- `find_text_key` and `layer_weight`. -/
def layerWeight (state : StateDict) (layer : ℤ) (suffix : String) :
    Except ReplayError StateTensor :=
  match state.filter fun e => isTextKey layer suffix e.1 with
  | [e] => .ok e.2
  | found =>
      let preview := ", ".intercalate ((found.map Prod.fst).take 8)
      .error (.py (.keyError (s!"expected one text layer key for layer {layer} suffix '{suffix}'"
        ++ s!", found {found.length}: {preview}")))

/-! ### Quantised matrices -/

/-- The rows of one matrix, and below them those of another. -/
def stackRows (rows : ℕ) (f g : ℕ → ℕ → ℚ) (i j : ℕ) : ℚ :=
  if i < rows then f i j else g (i - rows) j

/-- `np.concatenate(_, axis=0)`. -/
def concatRows : List StateTensor → Except ReplayError StateTensor
  | [] => .error .valueError
  | [t] => .ok t
  | t :: u :: rest => do
      let below ← concatRows (u :: rest)
      match t.shape, below.shape with
      | [rows, cols], [rows', cols'] =>
          if cols = cols' then .ok ⟨[rows + rows', cols], stackRows rows t.values below.values⟩
          else .error .valueError
      | _, _ => .error .valueError

/-- The rows of `packed` and of `meta`. -/
structure QuantizedRows where
  packed : List (List (BitVec 8))
  metadata : List (List (BitVec 8))

/-- `np_quantize_w4_rtn`, with scales and zero points in turn. -/
def npQuantizeW4Rtn (matrix : StateTensor) (groupSize : ℤ) : Except ReplayError QuantizedRows :=
  match matrix.shape with
  | [rows, cols] =>
      if groupSize = 0 then .error .zeroDivisionError
      else if (cols : ℤ) % groupSize ≠ 0 then
        .error (.assertionError s!"in_features={cols} must divide group_size={groupSize}")
      else if groupSize < 0 ∨ rows = 0 then .error .valueError
      else
        let g := groupSize.toNat
        .ok
          { packed := (List.range rows).map fun r =>
              (List.range (cols / 2)).map (rtnPacked g (matrix.values r))
            metadata := (List.range rows).map fun r =>
              (List.range (cols / g)).flatMap fun i =>
                [rtnScaleByte g (matrix.values r) i, rtnZeroByte] }
  | _ => .error .valueError

/-- `quantize_matrix`. -/
def quantizeMatrix (matrix : StateTensor) (groupSize : ℤ) :
    Except ReplayError (List (BitVec 8) × List (BitVec 8)) := do
  let q ← npQuantizeW4Rtn matrix groupSize
  .ok (q.packed.flatten, q.metadata.flatten)

/-- `DECODER_LAYER_KEYS`. -/
def decoderLayerKeys : List (String × List String) :=
  [("qkv", ["self_attn.q_proj.weight", "self_attn.k_proj.weight", "self_attn.v_proj.weight"]),
    ("attn_out", ["self_attn.o_proj.weight"]),
    ("gate_up", ["mlp.gate_proj.weight", "mlp.up_proj.weight"]),
    ("down", ["mlp.down_proj.weight"])]

/-- The bytes of a layer in the four files: the halves of the weights and of the metadata. -/
structure LayerBytes where
  wgt : Fin 2 → List (BitVec 8)
  scales : Fin 2 → List (BitVec 8)

/-- The rows `[:half]` or `[half:]`. -/
def halfOf (h : Fin 2) (rows : List (List (BitVec 8))) : List (BitVec 8) :=
  (if h = 0 then rows.take (rows.length / 2) else rows.drop (rows.length / 2)).flatten

/-- The halves of a matrix are appended. -/
def LayerBytes.extend (bytes : LayerBytes) (q : QuantizedRows) : LayerBytes where
  wgt h := bytes.wgt h ++ halfOf h q.packed
  scales h := bytes.scales h ++ halfOf h q.metadata

/-- `quantize_decoder_layer`. -/
def quantizeDecoderLayer (state : StateDict) (layer groupSize : ℤ) :
    Except ReplayError LayerBytes :=
  decoderLayerKeys.foldlM (fun bytes entry => do
    let matrix ← concatRows (← entry.2.mapM (layerWeight state layer))
    let q ← npQuantizeW4Rtn matrix groupSize
    .ok (bytes.extend q)) ⟨fun _ => [], fun _ => []⟩

/-! ### Replays -/

/-- `blob[start:stop]`. -/
def blobSlice (blob : List (BitVec 8)) (start stop : ℤ) : List (BitVec 8) :=
  let clamp (i : ℤ) : ℕ := (if i < 0 then i + blob.length else min i blob.length).toNat
  (blob.take (clamp stop)).drop (clamp start)

/-- `items[i]`. -/
def nth {α : Type} (items : List α) (i : ℤ) : Except ReplayError α :=
  let index := if i < 0 then i + items.length else i
  if index < 0 then .error .indexError
  else
    match items[index.toNat]? with
    | some x => .ok x
    | none => .error .indexError

/-- `v[i]`, for an index that is an integer. -/
def itemAt (v : Json Empty) (i : ℤ) : Except ReplayError (Json Empty) :=
  match v with
  | .list items => nth items i
  | .str s => nth (s.toList.map fun c => .str c.toString) i
  | .dict _ => .error (.py (.keyError (toString i)))
  | _ => .error (.py .typeError)

/-- `len(v)`. -/
def pyLen : Json Empty → Except ReplayError ℕ
  | .list items => .ok items.length
  | .dict items => .ok items.length
  | .str s => .ok s.length
  | _ => .error (.py .typeError)

/-- The value as an integer. -/
def asInt : Json Empty → Except ReplayError ℤ
  | .int n => .ok n
  | .bool b => .ok b.toNat
  | _ => .error (.py .typeError)

/-- A step of the replay, which collects `errors`. -/
abbrev Replay (α : Type) : Type := Report ReplayError String α

/-- A step that is shared with the other scripts. -/
def ofPy {α : Type} : Except PyError α → Replay α
  | .ok a => .ofExcept (.ok a)
  | .error e => .ofExcept (.error (.py e))

/-- `compare_slice`. -/
def compareSlice (label : String) (expected blob : List (BitVec 8)) (offset : ℤ) : Replay Unit :=
  let actual := blobSlice blob offset (offset + expected.length)
  let first :=
    match (actual.zip expected).findIdx? fun pair => pair.1 != pair.2 with
    | some i => toString i
    | none => "None"
  .expect (actual == expected)
    s!"{label} mismatch at exported offset {offset}+{first}; span={expected.length}"

/-- `--layers`, after it is split. -/
inductive LayerSpec where
  | all
  | some (layers : List ℤ)

/-- `parse_layers`. -/
def parseLayers (spec : LayerSpec) (total : ℕ) : List ℤ :=
  match spec with
  | .all => (List.range total).map Int.ofNat
  | .some layers => layers

/-- The options that decide what is compared. -/
structure ReplayArgs where
  layers : LayerSpec
  checkLmhead : Bool

/-- `(args.export_dir / name).read_bytes()`. -/
def readBytes (dir : ExportDir Empty) (name : String) : Replay (List (BitVec 8)) :=
  match dir.files name with
  | some bytes => .ofExcept (.ok bytes)
  | none => .ofExcept (.error (.py (.fileNotFoundError name)))

/-- `json.loads` of the text of the manifest. -/
def readManifest (dir : ExportDir Empty) : Replay (Json Empty) :=
  match dir.manifest with
  | some payload => ofPy payload
  | none => .ofExcept (.error (.py (.fileNotFoundError dir.manifestPath)))

/-- The bytes of the four files of the decoder. -/
def readDecoderFiles (dir : ExportDir Empty) : Replay LayerBytes := do
  let w0 ← readBytes dir "weights_half0.bin"
  let w1 ← readBytes dir "weights_half1.bin"
  let m0 ← readBytes dir "meta_half0.bin"
  let m1 ← readBytes dir "meta_half1.bin"
  pure ⟨![w0, w1], ![m0, m1]⟩

/-- A round of the loop over the layers. -/
def replayLayer (state : StateDict) (groupSize : ℤ) (files : LayerBytes) (manifest : Json Empty)
    (layer : ℤ) : Replay Unit := do
  let entry ← .ofExcept (itemAt (← ofPy (manifest.getItem "decoder_layers")) layer)
  let offsets ←
    if ← ofPy (entry.contains "w_offset_bytes") then ofPy (entry.contains "meta_offset_bytes")
    else pure false
  if !offsets then .note s!"decoder layer {layer} missing byte offsets"
  else do
    let bytes ← .ofExcept (quantizeDecoderLayer state layer groupSize)
    let wOffset ← .ofExcept (asInt (← ofPy (entry.getItem "w_offset_bytes")))
    compareSlice s!"layer {layer} weights_half0" (bytes.wgt 0) (files.wgt 0) wOffset
    compareSlice s!"layer {layer} weights_half1" (bytes.wgt 1) (files.wgt 1) wOffset
    let metaOffset ← .ofExcept (asInt (← ofPy (entry.getItem "meta_offset_bytes")))
    compareSlice s!"layer {layer} meta_half0" (bytes.scales 0) (files.scales 0) metaOffset
    compareSlice s!"layer {layer} meta_half1" (bytes.scales 1) (files.scales 1) metaOffset

/-- The comparison of the head. -/
def replayLmhead (state : StateDict) (groupSize : ℤ) (dir : ExportDir Empty) : Replay Unit := do
  let head ← .ofExcept (findKey state "lm_head.weight")
  let (packed, scales) ← .ofExcept (quantizeMatrix head groupSize)
  let halfW := packed.length / 2
  let halfM := scales.length / 2
  compareSlice "lmhead_wgt_half0" (packed.take halfW) (← readBytes dir "lmhead_wgt_half0.bin") 0
  compareSlice "lmhead_wgt_half1" (packed.drop halfW) (← readBytes dir "lmhead_wgt_half1.bin") 0
  compareSlice "lmhead_meta_half0" (scales.take halfM) (← readBytes dir "lmhead_meta_half0.bin") 0
  compareSlice "lmhead_meta_half1" (scales.drop halfM) (← readBytes dir "lmhead_meta_half1.bin") 0

/-- `main`, for a checkpoint that was loaded. -/
def replayExport (args : ReplayArgs) (state : StateDict) (dir : ExportDir Empty) :
    Replay Unit := do
  let manifest ← readManifest dir
  let groupSize ← .ofExcept (asInt (← ofPy ((← ofPy (manifest.getItem "scheme")).getItem
    "group_size")))
  let total ← .ofExcept (pyLen (← ofPy (manifest.get "decoder_layers" (.list []))))
  let files ← readDecoderFiles dir
  (parseLayers args.layers total).forM (replayLayer state groupSize files manifest)
  if args.checkLmhead then replayLmhead state groupSize dir

end Kv260
