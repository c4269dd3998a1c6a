import SmolVlm2Kv260.Export.Rtn
import SmolVlm2Kv260.Ggml.Sidecar
import Mathlib.Data.List.Forall2
import Mathlib.Data.List.GetD
import Mathlib.Data.List.Induction
import Mathlib.Data.List.TakeWhile

/-!
# The exported sidecar

`quantize_weights.py` packs the weights of the ggml backend into one blob, matrix by matrix:
`append_native_q8_tensor_aliases` appends the blocks of a matrix, and an entry for each of its
names to the list of tensors.  The backend loads blob and list, and unpacks a matrix at the offset
of its entry.

A name gives the first matrix appended under it that has any weights: an entry of no bytes is not
kept.
-/

set_option autoImplicit false

namespace Kv260

open Nlohmann Blocks

/-! ### Quantisation -/

/-- Two bytes make up their word. -/
theorem bytes_append (x : BitVec 16) :
  x.extractLsb' 8 8 ++ x.extractLsb' 0 8 = x
  := by
  apply BitVec.eq_of_getLsbD_eq
  intro i hi
  rw [BitVec.getLsbD_append, BitVec.getLsbD_extractLsb', BitVec.getLsbD_extractLsb']
  rcases Nat.lt_or_ge i 8 with h | h
  · simp [h]
  · have hhigh : i - 8 < 8 := by omega
    have hsum : 8 + (i - 8) = i := by omega
    simp [Nat.not_lt.mpr h, hhigh, hsum]

/-- What the quantiser does with numbers of `float32`. -/
class NpFloat32 (W : Type) where
  abs : W → W
  max : W → W → W
  min : W → W → W
  div : W → W → W
  round : W → W
  /-- `1e-8`. -/
  tiny : W
  /-- `127`. -/
  limit : W
  /-- `-127`. -/
  negLimit : W
  toInt8 : W → BitVec 8
  toFloat16 : W → BitVec 16

/-- A matrix of weights with full blocks: `out_f` rows of `in_f` columns. -/
structure WeightMatrix (W : Type) where
  outF : ℕ
  inF : ℕ
  weight : ℕ → ℕ → W
  blocks : 32 ∣ inF

namespace WeightMatrix

variable {W : Type} [NpFloat32 W] (m : WeightMatrix W)

/-- `w[r, b]`. -/
def block (r b i : ℕ) : W := m.weight r (b * 32 + i)

/-- `scale[r, b]`. -/
def scale (r b : ℕ) : W :=
  let absmax := (List.range 31).foldl
    (fun acc i => NpFloat32.max acc (NpFloat32.abs (m.block r b (i + 1))))
    (NpFloat32.abs (m.block r b 0))
  NpFloat32.div (NpFloat32.max absmax NpFloat32.tiny) NpFloat32.limit

/-- The scale as it is stored. -/
def scaleBits (r b : ℕ) : BitVec 16 := NpFloat32.toFloat16 (m.scale r b)

/-- `q[r, b, i]`. -/
def quant (r b i : ℕ) : BitVec 8 :=
  NpFloat32.toInt8 (NpFloat32.min (NpFloat32.max
    (NpFloat32.round (NpFloat32.div (m.block r b i) (m.scale r b))) NpFloat32.negLimit)
    NpFloat32.limit)

/-- The bytes of a block: its scale, the low byte first, and its values. -/
def blockBytesOf (r b : ℕ) : List (BitVec 8) :=
  (m.scaleBits r b).extractLsb' 0 8 :: (m.scaleBits r b).extractLsb' 8 8
    :: (List.range 32).map (m.quant r b)

/-- `quantize_q8_0_rtn`. -/
def quantizeQ8_0Rtn : List (BitVec 8) :=
  (List.range m.outF).flatMap fun r => (List.range (m.inF / 32)).flatMap fun b => m.blockBytesOf r b

/-- The scales, for each row and block. -/
def scales : List (BitVec 16) :=
  (List.range m.outF).flatMap fun r => (List.range (m.inF / 32)).map fun b => m.scaleBits r b

/-- The values, for each row and block. -/
def quants : List (BitVec 8) :=
  (List.range m.outF).flatMap fun r =>
    (List.range (m.inF / 32)).flatMap fun b => (List.range 32).map (m.quant r b)

/-- There are rows and columns. -/
def HasWeights : Prop := 0 < m.outF ∧ 0 < m.inF

instance : Decidable m.HasWeights := inferInstanceAs (Decidable (_ ∧ _))

theorem length_blockBytesOf (r b : ℕ) :
  (m.blockBytesOf r b).length = blockBytes
  := by
  rw [blockBytesOf, List.length_cons, List.length_cons, List.length_map, List.length_range]

theorem length_row (r : ℕ) :
  ((List.range (m.inF / 32)).flatMap fun b => m.blockBytesOf r b).length = m.inF / 32 * blockBytes
  := length_flatMap_range fun b _ => m.length_blockBytesOf r b

theorem length_quantizeQ8_0Rtn :
  m.quantizeQ8_0Rtn.length = unpackBytes m.outF m.inF
  := by
  rw [unpackBytes, Nat.mul_assoc]
  apply length_flatMap_range fun r _ => m.length_row r

/-- Matrices without weights have no bytes. -/
theorem quantizeQ8_0Rtn_length_eq_zero_iff :
  m.quantizeQ8_0Rtn.length = 0 ↔ ¬ m.HasWeights
  := by
  obtain ⟨k, hk⟩ := m.blocks
  rw [length_quantizeQ8_0Rtn, unpackBytes, HasWeights, hk, Nat.mul_div_cancel_left k (by decide),
    Nat.mul_eq_zero, Nat.mul_eq_zero]
  change (m.outF = 0 ∨ k = 0) ∨ 34 = 0 ↔ _
  omega

/-- Byte `j` of a block. -/
theorem getElem?_quantizeQ8_0Rtn {r b j : ℕ} (hr : r < m.outF) (hb : b < m.inF / 32)
    (hj : j < blockBytes) :
  m.quantizeQ8_0Rtn[blockByte m.inF r b j]? = (m.blockBytesOf r b)[j]?
  := by
  have hin : b * blockBytes + j < m.inF / 32 * blockBytes := by
    calc
      b * blockBytes + j < b * blockBytes + blockBytes := Nat.add_lt_add_left hj _
      _ = (b + 1) * blockBytes := (Nat.succ_mul b blockBytes).symm
      _ ≤ m.inF / 32 * blockBytes := Nat.mul_le_mul_right _ hb
  have hpos : blockByte m.inF r b j = r * (m.inF / 32 * blockBytes) + (b * blockBytes + j) := by
    rw [blockByte, Nat.add_mul, Nat.mul_assoc, Nat.add_assoc]
  rw [hpos, quantizeQ8_0Rtn, getElem?_flatMap_range (fun r _ => m.length_row r) hr hin,
    getElem?_flatMap_range (fun b _ => m.length_blockBytesOf r b) hb hj]

/-- Where the bytes of a matrix are, its scales and values are unpacked. -/
theorem unpack_quantizeQ8_0Rtn {src : ℕ → BitVec 8}
    (h : ∀ p < m.quantizeQ8_0Rtn.length, m.quantizeQ8_0Rtn[p]? = some (src p)) :
  unpackScales src m.outF m.inF = m.scales ∧ unpackValues src m.outF m.inF = m.quants
  := by
  have hbyte : ∀ r < m.outF, ∀ b < m.inF / 32, ∀ j < blockBytes,
      (m.blockBytesOf r b)[j]? = some (src (blockByte m.inF r b j)) := by
    intro r hr b hb j hj
    have hmem : blockByte m.inF r b j ∈ unpackReads m.outF m.inF := by
      simp only [unpackReads, List.mem_flatMap, List.mem_map, List.mem_range]
      exact ⟨r, hr, b, hb, j, hj, rfl⟩
    rw [unpackReads_eq_range, ← length_quantizeQ8_0Rtn, List.mem_range] at hmem
    rw [← m.getElem?_quantizeQ8_0Rtn hr hb hj]
    apply h _ hmem
  constructor
  · apply List.flatMap_congr
    intro r hr
    apply List.map_congr_left
    intro b hb
    have hblock := hbyte r (List.mem_range.mp hr) b (List.mem_range.mp hb)
    rw [← Option.some.inj (hblock 0 (by decide)), ← Option.some.inj (hblock 1 (by decide))]
    apply bytes_append
  · apply List.flatMap_congr
    intro r hr
    apply List.flatMap_congr
    intro b hb
    apply List.map_congr_left
    intro i hi
    have hlt : i < 32 := List.mem_range.mp hi
    have hblock := hbyte r (List.mem_range.mp hr) b (List.mem_range.mp hb) (2 + i) (by
      change 2 + i < 34
      omega)
    apply (Option.some.inj _).symm
    rw [← hblock, blockBytesOf, Nat.add_comm 2 i, List.getElem?_cons_succ, List.getElem?_cons_succ,
      List.getElem?_map, List.getElem?_range hlt]
    rfl

end WeightMatrix

/-! ### The list of tensors -/

/-- An entry of `tensors`. -/
structure NativeTensor where
  domain : String
  name : String
  K : ℕ
  N : ℕ
  offsetBytes : ℕ
  nbytes : ℕ
  quant : String

/-- `native_blob`, with the list of tensors. -/
structure NativeExport where
  blob : List (BitVec 8)
  tensors : List NativeTensor

section Export

variable {W : Type} [NpFloat32 W]

/-- The entry for a matrix that is appended at `offset`. -/
def nativeEntry (offset : ℕ) (domain name : String) (matrix : WeightMatrix W) : NativeTensor where
  domain := domain
  name := name
  K := matrix.inF
  N := matrix.outF
  offsetBytes := offset
  nbytes := matrix.quantizeQ8_0Rtn.length
  quant := "q8_0"

/-- `append_native_q8_tensor`. -/
def appendNativeQ8Tensor (e : NativeExport) (domain name : String) (matrix : WeightMatrix W) :
    NativeExport where
  blob := e.blob ++ matrix.quantizeQ8_0Rtn
  tensors := e.tensors ++ [nativeEntry e.blob.length domain name matrix]

/-- `append_native_q8_tensor_aliases`: each further name gets the entry of the first one. -/
def appendNativeQ8TensorAliases (e : NativeExport) (domain : String) (names : List String)
    (matrix : WeightMatrix W) : NativeExport :=
  match names.filter (· ≠ "") with
  | [] => e
  | name :: aliases =>
      let e' := appendNativeQ8Tensor e domain name matrix
      let base := nativeEntry e.blob.length domain name matrix
      { e' with tensors := e'.tensors ++ aliases.map fun n => { base with name := n } }

/-- A call of `append_native_q8_tensor_aliases`. -/
structure NativeCall (W : Type) where
  domain : String
  names : List String
  matrix : WeightMatrix W

/-- Blob and list after some calls. -/
def nativeExport (calls : List (NativeCall W)) : NativeExport :=
  calls.foldl (fun e c => appendNativeQ8TensorAliases e c.domain c.names c.matrix) ⟨[], []⟩

/-- The matrices that are appended, each under all of its names. -/
def appended (calls : List (NativeCall W)) : List (String × WeightMatrix W) :=
  calls.flatMap fun c => (c.names.filter (· ≠ "")).map fun name => (name, c.matrix)

/-- An entry describes a matrix that is in the blob under a name. -/
structure NativeTensor.Describes (blob : List (BitVec 8)) (t : NativeTensor)
    (e : String × WeightMatrix W) : Prop where
  name_eq : t.name = e.1
  name_ne : t.name ≠ ""
  quant_eq : t.quant = "q8_0"
  K_eq : t.K = e.2.inF
  N_eq : t.N = e.2.outF
  nbytes_eq : t.nbytes = e.2.quantizeQ8_0Rtn.length
  offset_le : t.offsetBytes + t.nbytes ≤ blob.length
  stored : ∀ p < t.nbytes, blob[t.offsetBytes + p]? = e.2.quantizeQ8_0Rtn[p]?

/-- What is in the blob stays there. -/
theorem NativeTensor.Describes.append {blob : List (BitVec 8)} {t : NativeTensor}
    {e : String × WeightMatrix W} (h : t.Describes blob e) (more : List (BitVec 8)) :
  t.Describes (blob ++ more) e
  := by
  have hle := h.offset_le
  constructor
  · apply h.name_eq
  · apply h.name_ne
  · apply h.quant_eq
  · apply h.K_eq
  · apply h.N_eq
  · apply h.nbytes_eq
  · rw [List.length_append]
    omega
  · intro p hp
    rw [List.getElem?_append_left (by omega)]
    apply h.stored p hp

/-- The entry of a matrix that has just been appended. -/
theorem describes_nativeEntry (blob : List (BitVec 8)) (domain : String) {name : String}
    (hname : name ≠ "") (matrix : WeightMatrix W) :
  (nativeEntry blob.length domain name matrix).Describes (blob ++ matrix.quantizeQ8_0Rtn)
    (name, matrix)
  := by
  constructor
  · rfl
  · apply hname
  · rfl
  · rfl
  · rfl
  · rfl
  · rw [List.length_append]
    apply le_refl
  · intro p _
    change (blob ++ matrix.quantizeQ8_0Rtn)[blob.length + p]? = matrix.quantizeQ8_0Rtn[p]?
    rw [List.getElem?_append_right (Nat.le_add_right _ _), Nat.add_sub_cancel_left]

/-- One call appends the entries of its names. -/
theorem describes_appendAliases {e : NativeExport} {es : List (String × WeightMatrix W)}
    (h : List.Forall₂ (NativeTensor.Describes e.blob) e.tensors es) (domain : String)
    (names : List String) (matrix : WeightMatrix W) :
  List.Forall₂
    (NativeTensor.Describes (appendNativeQ8TensorAliases e domain names matrix).blob)
    (appendNativeQ8TensorAliases e domain names matrix).tensors
    (es ++ (names.filter (· ≠ "")).map fun name => (name, matrix))
  := by
  have hnames : ∀ name ∈ names.filter (· ≠ ""), name ≠ "" := by
    intro name hmem
    apply of_decide_eq_true (List.mem_filter.mp hmem).2
  rw [appendNativeQ8TensorAliases]
  rcases hfilter : names.filter (· ≠ "") with - | ⟨name, aliases⟩
  · rw [List.map_nil, List.append_nil]
    apply h
  · have hall : ∀ n ∈ name :: aliases,
        (nativeEntry e.blob.length domain n matrix).Describes
          (e.blob ++ matrix.quantizeQ8_0Rtn) (n, matrix) := by
      intro n hn
      apply describes_nativeEntry e.blob domain (hnames n (hfilter ▸ hn))
    have hnew : ((name :: aliases).map fun n => nativeEntry e.blob.length domain n matrix)
        = nativeEntry e.blob.length domain name matrix :: aliases.map fun n =>
          { nativeEntry e.blob.length domain name matrix with name := n } := rfl
    simp only [appendNativeQ8Tensor, List.append_assoc, List.singleton_append]
    apply List.rel_append
    · apply h.imp
      intro t e' ht
      apply ht.append
    · rw [← hnew, List.forall₂_map_left_iff, List.forall₂_map_right_iff, List.forall₂_same]
      apply hall

/-- After any calls, the entries describe what was appended, in order. -/
theorem describes_nativeExport (calls : List (NativeCall W)) :
  List.Forall₂ (NativeTensor.Describes (nativeExport calls).blob) (nativeExport calls).tensors
    (appended calls)
  := by
  induction calls using List.reverseRecOn with
  | nil => exact .nil
  | append_singleton calls c ih =>
      rw [nativeExport, List.foldl_append, appended, List.flatMap_append, List.flatMap_singleton]
      apply describes_appendAliases ih

end Export

/-! ### The manifest -/

section Load

variable {F : Type}

namespace NativeTensor

/-- The entry as it is written. -/
def toJson (t : NativeTensor) : Json F :=
  .object [("domain", .string t.domain), ("name", .string t.name), ("K", .numberInteger t.K),
    ("N", .numberInteger t.N), ("offset_bytes", .numberInteger t.offsetBytes),
    ("nbytes", .numberInteger t.nbytes), ("quant", .string t.quant)]

/-- The entry as it is loaded. -/
def loaded (t : NativeTensor) : SidecarTensor where
  name := t.name
  domain := t.domain
  offsetBytes := BitVec.ofInt 64 t.offsetBytes
  nbytes := BitVec.ofInt 64 t.nbytes
  K := BitVec.ofInt 64 t.K
  N := BitVec.ofInt 64 t.N
  quant := t.quant

theorem sidecarTensor_toJson (ofFloat : F → SizeT) (t : NativeTensor) :
  sidecarTensor ofFloat t.toJson = .ok t.loaded
  := rfl

end NativeTensor

/-- The file of the blob. -/
def nativeWeightsFile : String := "native_q8_0_weights.bin"

/-- `manifest["native_backend"]`. -/
def nativeBackend (e : NativeExport) : Json F :=
  .object [("weights_file", .string nativeWeightsFile), ("tensor_quant", .string "q8_0"),
    ("tensors", .array (e.tensors.map NativeTensor.toJson))]

/-- `manifest`, with the parts that the backend does not look at. -/
def sidecarManifestJson (modelId : String) (configMatch : Json F) (rest : List (String × Json F))
    (e : NativeExport) : Json F :=
  .object ([("source_model", .string modelId), ("version", .numberInteger 2),
    ("config_match", configMatch), ("native_backend", nativeBackend e)] ++ rest)

/-- An entry is kept. -/
def SidecarTensor.IsKept (blobSize : ℕ) (t : SidecarTensor) : Prop :=
  t.name ≠ "" ∧ t.nbytes ≠ 0 ∧ (t.offsetBytes + t.nbytes).toNat ≤ blobSize

instance (blobSize : ℕ) (t : SidecarTensor) : Decidable (t.IsKept blobSize) :=
  inferInstanceAs (Decidable (_ ∧ _))

theorem addTensor_of_isKept {blobSize : ℕ} {t : SidecarTensor} (h : t.IsKept blobSize)
    (tensors : List (String × SidecarTensor)) :
  addTensor blobSize tensors t = emplaceTensor tensors t
  := by
  obtain ⟨hname, hnbytes, hend⟩ := h
  rw [addTensor, if_neg (not_or_intro hname hnbytes), if_neg (Nat.not_lt.mpr hend)]

theorem addTensor_of_not_isKept {blobSize : ℕ} {t : SidecarTensor} (h : ¬ t.IsKept blobSize)
    (tensors : List (String × SidecarTensor)) :
  addTensor blobSize tensors t = tensors
  := by
  rw [addTensor]
  split_ifs with hempty hout
  · rfl
  · rfl
  · exfalso
    apply h
    exact ⟨fun hname => hempty (.inl hname), fun hnbytes => hempty (.inr hnbytes),
      Nat.le_of_not_lt hout⟩

/-- Under a name, the first entry stays. -/
theorem find?_emplaceTensor (tensors : List (String × SidecarTensor)) (t : SidecarTensor)
    (name : String) :
  (emplaceTensor tensors t).find? (fun e => e.1 == name)
    = (tensors.find? fun e => e.1 == name).or (if t.name = name then some (t.name, t) else none)
  := by
  rw [emplaceTensor]
  split_ifs with hany hname hname
  · subst hname
    rw [List.any_eq_true] at hany
    obtain ⟨e, he, hen⟩ := hany
    rcases hfind : tensors.find? fun e => e.1 == t.name with - | e'
    · exfalso
      apply List.find?_eq_none.mp hfind e he hen
    · rw [hfind, Option.some_or]
  · rw [Option.or_none]
  · rw [List.find?_append, List.find?_singleton, beq_iff_eq.mpr hname]
    rfl
  · rw [List.find?_append, List.find?_singleton, beq_eq_false_iff_ne.mpr hname]
    rfl

theorem find?_foldl_addTensor (blobSize : ℕ) (ts : List SidecarTensor)
    (tensors : List (String × SidecarTensor)) (name : String) :
  (ts.foldl (addTensor blobSize) tensors).find? (fun e => e.1 == name)
    = (tensors.find? fun e => e.1 == name).or
      ((ts.find? fun t => t.name = name ∧ t.IsKept blobSize).map fun t => (t.name, t))
  := by
  induction ts generalizing tensors with
  | nil =>
      rw [List.find?_nil, Option.map_none, Option.or_none]
      rfl
  | cons t ts ih =>
      rw [List.foldl_cons, ih, List.find?_cons]
      by_cases hkept : t.IsKept blobSize
      · rw [addTensor_of_isKept hkept, find?_emplaceTensor, Option.or_assoc]
        by_cases hname : t.name = name
        · simp [hname, hkept]
        · simp [hname]
      · rw [addTensor_of_not_isKept hkept]
        simp [hkept]

theorem loadTensors_toJson (ofFloat : F → SizeT) (blobSize : ℕ) (ts : List NativeTensor) :
  loadTensors ofFloat blobSize (ts.map NativeTensor.toJson)
    = .ok ((ts.map NativeTensor.loaded).foldl (addTensor blobSize) [])
  := by
  have hfold : ∀ tensors, (ts.map (NativeTensor.toJson (F := F))).foldlM
      (fun tensors entry => (sidecarTensor ofFloat entry).map (addTensor blobSize tensors)) tensors
        = .ok ((ts.map NativeTensor.loaded).foldl (addTensor blobSize) tensors) := by
    induction ts with
    | nil =>
        intro tensors
        rfl
    | cons t ts ih =>
        intro tensors
        rw [List.map_cons, List.map_cons, List.foldlM_cons, List.foldl_cons,
          NativeTensor.sidecarTensor_toJson]
        apply ih
  apply hfold

/-- The manifest that is loaded. -/
def loadedManifest (modelId : String) (e : NativeExport) : SidecarManifest where
  sourceModel := modelId
  weightsFile := nativeWeightsFile
  tensors := (e.tensors.map NativeTensor.loaded).foldl (addTensor e.blob.length) []
  weightsBlob := e.blob

theorem loadSidecarManifest_export {fs : String → Option (List (BitVec 8))}
    {parse : List (BitVec 8) → Option (Json F)} {ofFloat : F → SizeT} {path modelId : String}
    {configMatch : Json F} {rest : List (String × Json F)} {e : NativeExport} (hpath : path ≠ "")
    (hmanifest : (fs path).bind parse = some (sidecarManifestJson modelId configMatch rest e))
    (hblob : fs (blobPath path nativeWeightsFile) = some e.blob) :
  loadSidecarManifest fs parse ofFloat path = .ok (loadedManifest modelId e)
  := by
  have hnative : (sidecarManifestJson modelId configMatch rest e).find? "native_backend"
      = some (nativeBackend e) := rfl
  have hmodel : (sidecarManifestJson modelId configMatch rest e).value Json.getString
      "source_model" "" = .ok modelId := rfl
  have hfile : (nativeBackend e : Json F).value Json.getString "weights_file" ""
      = .ok nativeWeightsFile := rfl
  have htensors : (nativeBackend e : Json F).find? "tensors"
      = some (.array (e.tensors.map NativeTensor.toJson)) := rfl
  have hname : nativeWeightsFile ≠ "" := by decide
  have hwith : loadWithBlob ofFloat modelId nativeWeightsFile e.blob (nativeBackend e)
      = .ok (loadedManifest modelId e) := by
    simp only [loadWithBlob, htensors, loadTensors_toJson]
    rfl
  have hload : loadNative fs ofFloat path modelId (nativeBackend e)
      = .ok (loadedManifest modelId e) := by
    apply Except.bind_eq_ok_iff.mpr
    use nativeWeightsFile, hfile
    simp only [if_neg hname, hblob, hwith]
  rw [loadSidecarManifest, if_neg hpath, hmanifest]
  simp only [loadParsed, hnative]
  apply Except.bind_eq_ok_iff.mpr
  use modelId, hmodel

end Load

/-! ### The round trip -/

section RoundTrip

variable {W : Type} [NpFloat32 W]

/-- The first matrix with weights that was appended under a name. -/
def firstAppended (calls : List (NativeCall W)) (name : String) : Option (WeightMatrix W) :=
  ((appended calls).find? fun e => e.1 = name ∧ e.2.HasWeights).map Prod.snd

/-- A C string ends before its first zero. -/
def cString (name : String) : String :=
  String.ofList (name.toList.takeWhile (· ≠ Char.ofNat 0))

/-- Under `name` the manifest has a matrix: its shape, and the scales and the values that are
unpacked at the offset of its entry. -/
def SidecarManifest.Holds (m : SidecarManifest) (name : String) (matrix : WeightMatrix W) : Prop :=
  ∃ t, m.find (cString name) = some t
    ∧ t.K.toNat = matrix.inF ∧ t.N.toNat = matrix.outF
    ∧ unpackScales (fun p => m.weightsBlob.getD (t.offsetBytes.toNat + p) 0) t.N.toNat t.K.toNat
      = matrix.scales
    ∧ unpackValues (fun p => m.weightsBlob.getD (t.offsetBytes.toNat + p) 0) t.N.toNat t.K.toNat
      = matrix.quants

theorem toNat_ofInt_natCast {n : ℕ} (h : n < 2 ^ 64) :
  (BitVec.ofInt 64 n).toNat = n
  := by
  rw [BitVec.ofInt_natCast, BitVec.toNat_ofNat, Nat.mod_eq_of_lt h]

section Entry

variable {blob : List (BitVec 8)} {t : NativeTensor} {e : String × WeightMatrix W}
  (h : t.Describes blob e) (hblob : blob.length < 2 ^ 64)

include h hblob

theorem NativeTensor.Describes.toNat_offsetBytes :
  t.loaded.offsetBytes.toNat = t.offsetBytes
  := by
  have hle := h.offset_le
  apply toNat_ofInt_natCast (by omega)

theorem NativeTensor.Describes.toNat_nbytes :
  t.loaded.nbytes.toNat = t.nbytes
  := by
  have hle := h.offset_le
  apply toNat_ofInt_natCast (by omega)

/-- The entries that are kept are those of matrices with weights. -/
theorem NativeTensor.Describes.isKept_iff :
  t.loaded.IsKept blob.length ↔ e.2.HasWeights
  := by
  have hle := h.offset_le
  have hnbytes := h.toNat_nbytes hblob
  have hend : (t.loaded.offsetBytes + t.loaded.nbytes).toNat = t.offsetBytes + t.nbytes := by
    rw [BitVec.toNat_add, h.toNat_offsetBytes hblob, hnbytes, Nat.mod_eq_of_lt (by omega)]
  have hzero : t.loaded.nbytes = 0 ↔ t.nbytes = 0 := by
    rw [← BitVec.toNat_inj, hnbytes]
    rfl
  rw [SidecarTensor.IsKept, hend, Ne, Ne, hzero, h.nbytes_eq,
    WeightMatrix.quantizeQ8_0Rtn_length_eq_zero_iff, not_not, ← h.nbytes_eq]
  constructor
  · rintro ⟨-, hweights, -⟩
    apply hweights
  · intro hweights
    exact ⟨h.name_ne, hweights, hle⟩

/-- A matrix with weights has a shape that its entry holds. -/
theorem NativeTensor.Describes.shape (hweights : e.2.HasWeights) :
  t.loaded.K.toNat = e.2.inF ∧ t.loaded.N.toNat = e.2.outF
  := by
  have hle := h.offset_le
  have hlen := h.nbytes_eq
  obtain ⟨hout, hin⟩ := hweights
  obtain ⟨k, hk⟩ := e.2.blocks
  rw [e.2.length_quantizeQ8_0Rtn, unpackBytes, hk, Nat.mul_div_cancel_left k (by decide)] at hlen
  change t.nbytes = e.2.outF * k * 34 at hlen
  have hcols : k ≤ e.2.outF * k := Nat.le_mul_of_pos_left k hout
  have hrows : e.2.outF ≤ e.2.outF * k := Nat.le_mul_of_pos_right _ (by omega)
  constructor
  · rw [← h.K_eq]
    apply toNat_ofInt_natCast
    rw [h.K_eq]
    omega
  · rw [← h.N_eq]
    apply toNat_ofInt_natCast
    rw [h.N_eq]
    omega

/-- At the offset of an entry are the bytes of its matrix. -/
theorem NativeTensor.Describes.getD_blob {p : ℕ} (hp : p < e.2.quantizeQ8_0Rtn.length) :
  e.2.quantizeQ8_0Rtn[p]? = some (blob.getD (t.loaded.offsetBytes.toNat + p) 0)
  := by
  have hle := h.offset_le
  rw [← h.nbytes_eq] at hp
  have hstored := h.stored p hp
  rw [List.getElem?_eq_getElem (by omega)] at hstored
  rw [h.toNat_offsetBytes hblob, List.getD_eq_getElem _ _ (by omega), ← hstored]

end Entry

/-- Two lists that correspond have corresponding first matches. -/
theorem rel_find? {α β : Type} {R : α → β → Prop} {l : List α} {l' : List β}
    (h : List.Forall₂ R l l') {p : α → Bool} {q : β → Bool} (hpq : ∀ a b, R a b → p a = q b) :
  Option.Rel (fun a b => R a b ∧ q b = true) (l.find? p) (l'.find? q)
  := by
  induction h with
  | nil => exact .none
  | @cons a b l l' hab _ ih =>
      rw [List.find?_cons, List.find?_cons, hpq a b hab]
      cases hq : q b with
      | false => apply ih
      | true => exact .some ⟨hab, hq⟩

/-- What is found under a name was appended first, of the matrices with weights. -/
theorem find_loadedManifest (modelId : String) {calls : List (NativeCall W)}
    (hsize : (nativeExport calls).blob.length < 2 ^ 64) (name : String) :
  (firstAppended calls name = none
      ∧ (loadedManifest modelId (nativeExport calls)).find name = none)
    ∨ ∃ (t : NativeTensor) (e : String × WeightMatrix W), firstAppended calls name = some e.2
      ∧ (loadedManifest modelId (nativeExport calls)).find name = some t.loaded
      ∧ t.Describes (nativeExport calls).blob e ∧ e.2.HasWeights
  := by
  have hfind : (loadedManifest modelId (nativeExport calls)).find name
      = ((nativeExport calls).tensors.find? fun t =>
        t.name = name ∧ t.loaded.IsKept (nativeExport calls).blob.length).map
          NativeTensor.loaded := by
    rw [SidecarManifest.find, loadedManifest, find?_foldl_addTensor, List.find?_map,
      List.find?_nil, Option.none_or, Option.map_map, Option.map_map]
    rfl
  have hrel := rel_find? (describes_nativeExport calls)
    (p := fun t => t.name = name ∧ t.loaded.IsKept (nativeExport calls).blob.length)
    (q := fun e => e.1 = name ∧ e.2.HasWeights) (by
      intro t e h
      rw [h.name_eq, decide_eq_decide, h.isKept_iff hsize])
  rw [hfind, firstAppended]
  rcases ht : (nativeExport calls).tensors.find? _ with - | t <;>
    rcases he : (appended calls).find? _ with - | e <;> rw [ht, he] at hrel
  · left
    exact ⟨rfl, rfl⟩
  · cases hrel
  · cases hrel
  · right
    obtain ⟨hdescribes, hweights⟩ : t.Describes _ e ∧ _ := by
      cases hrel
      assumption
    use t, e, rfl, rfl, hdescribes
    apply (of_decide_eq_true hweights).2

theorem cString_eq {name : String} (h : Char.ofNat 0 ∉ name.toList) :
  cString name = name
  := by
  have hall : ∀ c ∈ name.toList, decide (c ≠ Char.ofNat 0) = true := by
    intro c hc
    apply decide_eq_true
    rintro rfl
    apply h hc
  rw [cString, List.takeWhile_eq_self_iff.mpr hall, String.ofList_toList]

/-- For all calls and any name, the loaded manifest holds the matrix with weights that was
appended first under the name, and nothing when there is none. -/
theorem loadSidecarManifest_roundTrip {F : Type} {fs : String → Option (List (BitVec 8))}
    {parse : List (BitVec 8) → Option (Json F)} {ofFloat : F → SizeT} {path modelId : String}
    {configMatch : Json F} {rest : List (String × Json F)} {calls : List (NativeCall W)}
    (hpath : path ≠ "")
    (hmanifest : (fs path).bind parse
      = some (sidecarManifestJson modelId configMatch rest (nativeExport calls)))
    (hblob : fs (blobPath path nativeWeightsFile) = some (nativeExport calls).blob)
    (hsize : (nativeExport calls).blob.length < 2 ^ 64) :
  ∃ m, loadSidecarManifest fs parse ofFloat path = .ok m
    ∧ ∀ name, Char.ofNat 0 ∉ name.toList →
      (∀ matrix, firstAppended calls name = some matrix → m.Holds name matrix)
        ∧ (firstAppended calls name = none → m.find (cString name) = none)
  := by
  refine ⟨_, loadSidecarManifest_export hpath hmanifest hblob, ?_⟩
  intro name hname
  simp only [SidecarManifest.Holds, cString_eq hname]
  rcases find_loadedManifest modelId hsize name with ⟨hnone, hfind⟩ | ⟨t, e, hsome, hfind, h, hw⟩
  · rw [hnone]
    constructor
    · intro matrix hmatrix
      cases hmatrix
    · intro _
      apply hfind
  · rw [hsome]
    constructor
    · rintro matrix ⟨⟩
      obtain ⟨hK, hN⟩ := h.shape hsize hw
      have hunpack := e.2.unpack_quantizeQ8_0Rtn fun p hp => h.getD_blob hsize hp
      refine ⟨t.loaded, hfind, hK, hN, ?_⟩
      rw [hK, hN]
      apply hunpack
    · intro hnone
      cases hnone

end RoundTrip

/-! ### Small exports -/

/-- Numbers that are computed exactly, and of which only one is stored as a scale. -/
structure ExactNumber where
  val : ℚ

instance : NpFloat32 ExactNumber where
  abs x := ⟨|x.val|⟩
  max x y := ⟨max x.val y.val⟩
  min x y := ⟨min x.val y.val⟩
  div x y := ⟨x.val / y.val⟩
  round x := ⟨npRound x.val⟩
  tiny := ⟨1 / 10 ^ 8⟩
  limit := ⟨127⟩
  negLimit := ⟨-127⟩
  toInt8 x := BitVec.ofInt 8 ⌊x.val⌋
  toFloat16 x := if x.val = 1 then 0x3C00 else 0

/-- Rows of a block of 127s. -/
def constantMatrix (rows : ℕ) : WeightMatrix ExactNumber where
  outF := rows
  inF := 32
  weight _ _ := ⟨127⟩
  blocks := dvd_rfl

/-- The files of an export; the text of the manifest is parsed below. -/
def exportFiles (e : NativeExport) (path : String) : Option (List (BitVec 8)) :=
  if path = nativeWeightsFile then some e.blob
  else if path = "manifest.json" then some []
  else none

/-- What is loaded from an export. -/
def loadExport (e : NativeExport) : Except String SidecarManifest :=
  loadSidecarManifest (F := Empty) (exportFiles e)
    (fun _ => some (sidecarManifestJson "model" .null [] e)) (fun x => nomatch x) "manifest.json"

/-- Rows of blocks with different values, of which 127 is the largest. -/
def rampBlocks (rows blocks : ℕ) : WeightMatrix ExactNumber where
  outF := rows
  inF := 32 * blocks
  weight r c := ⟨if c % 32 = 0 then 127 else r - (c % 41 : ℕ)⟩
  blocks := dvd_mul_right 32 blocks

/-- Four calls: a matrix without rows, one under two names, another one, and one under the first
name again. -/
def aliasCalls : List (NativeCall ExactNumber) :=
  [⟨"text", ["output"], rampBlocks 0 1⟩, ⟨"text", ["output.weight", "", "output"], rampBlocks 2 2⟩,
    ⟨"vision", ["v.patch"], rampBlocks 3 1⟩, ⟨"text", ["output"], constantMatrix 1⟩]

theorem blob_length_aliasCalls :
  (nativeExport aliasCalls).blob.length = 272
  := by
  have hblob : (nativeExport aliasCalls).blob = [] ++ (rampBlocks 0 1).quantizeQ8_0Rtn
      ++ (rampBlocks 2 2).quantizeQ8_0Rtn ++ (rampBlocks 3 1).quantizeQ8_0Rtn
      ++ (constantMatrix 1).quantizeQ8_0Rtn := rfl
  simp only [hblob, List.length_append, WeightMatrix.length_quantizeQ8_0Rtn]
  rfl

/-- The second matrix is found under the name of the first one. -/
theorem loadSidecarManifest_roundTrip_aliases :
  ∃ m, loadExport (nativeExport aliasCalls) = .ok m ∧ m.Holds "output" (rampBlocks 2 2)
    ∧ m.Holds "v.patch" (rampBlocks 3 1) ∧ m.find (cString "v") = none
  := by
  have hsize : (nativeExport aliasCalls).blob.length < 2 ^ 64 := by
    rw [blob_length_aliasCalls]
    decide
  obtain ⟨m, hload, h⟩ := @loadSidecarManifest_roundTrip ExactNumber _ Empty
    (exportFiles (nativeExport aliasCalls))
    (fun _ => some (sidecarManifestJson "model" .null [] (nativeExport aliasCalls)))
    (fun x => nomatch x) "manifest.json" "model" .null [] aliasCalls (by decide) rfl rfl hsize
  exact ⟨m, hload, (h "output" (by decide)).1 _ rfl, (h "v.patch" (by decide)).1 _ rfl,
    (h "v" (by decide)).2 rfl⟩

/-- A matrix without rows. -/
def emptyCalls : List (NativeCall ExactNumber) := [⟨"text", ["w"], constantMatrix 0⟩]

/-- A name with a zero. -/
def zeroName : String := String.ofList ['w', Char.ofNat 0]

def zeroCalls : List (NativeCall ExactNumber) := [⟨"text", [zeroName], constantMatrix 1⟩]

theorem loadExport_eq (e : NativeExport) :
  loadExport e = .ok (loadedManifest "model" e)
  := by
  apply loadSidecarManifest_export (by decide) rfl rfl

theorem find_of_firstAppended_eq_none {calls : List (NativeCall ExactNumber)} {name : String}
    (hsize : (nativeExport calls).blob.length < 2 ^ 64) (h : firstAppended calls name = none) :
  (loadedManifest "model" (nativeExport calls)).find name = none
  := by
  rcases find_loadedManifest "model" hsize name with ⟨-, hfind⟩ | ⟨t, e, hsome, -⟩
  · apply hfind
  · rw [h] at hsome
    cases hsome

/-- A matrix without rows is not found under its name, and neither is a row under a name with a
zero. -/
theorem not_roundTrip :
  (∃ e ∈ appended emptyCalls, e.1 = "w")
    ∧ (∃ m, loadExport (nativeExport emptyCalls) = .ok m ∧ m.find (cString "w") = none)
    ∧ (∃ e ∈ appended zeroCalls, e.1 = zeroName)
    ∧ ∃ m, loadExport (nativeExport zeroCalls) = .ok m ∧ m.find (cString zeroName) = none
  := by
  have hempty : (nativeExport emptyCalls).blob.length = 0 :=
    (constantMatrix 0).length_quantizeQ8_0Rtn
  have hzero : (nativeExport zeroCalls).blob.length = 34 :=
    (constantMatrix 1).length_quantizeQ8_0Rtn
  refine ⟨⟨_, List.mem_singleton_self _, rfl⟩, ⟨_, loadExport_eq _, ?_⟩,
    ⟨_, List.mem_singleton_self _, rfl⟩, ⟨_, loadExport_eq _, ?_⟩⟩
  · apply find_of_firstAppended_eq_none
    · rw [hempty]
      decide
    · rfl
  · apply find_of_firstAppended_eq_none
    · rw [hzero]
      decide
    · rfl

end Kv260
