import SmolVlm2Kv260.Process.Blocks
import SmolVlm2Kv260.Process.Fallible
import Mathlib.Data.BitVec
import Mathlib.Data.List.Infix

/-!
# The sidecar manifest

The ggml backend loads weights from a blob that a manifest describes: `load_sidecar_manifest`
keeps the entries that fit into the blob, `supports_op` accepts a multiplication whose weight
has an entry of its shape, and `mul_mat` unpacks the blocks of the entry.  How many bytes it
reads follows from the shape, whatever number of bytes the entry declares, and the end of an
entry is computed modulo `2 ^ 64`.
-/

set_option autoImplicit false

/-! ### Parsed values -/

namespace Nlohmann

/-- A value of a parsed text, with numbers that are no integers in `F`. -/
inductive Json (F : Type) where
  | null
  | boolean (b : Bool)
  | numberInteger (n : ℤ)
  | numberFloat (x : F)
  | string (s : String)
  | array (items : List (Json F))
  | object (items : List (String × Json F))

namespace Json

variable {F : Type}

/-- `type_name`. -/
def typeName : Json F → String
  | null => "null"
  | boolean _ => "boolean"
  | numberInteger _ => "number"
  | numberFloat _ => "number"
  | string _ => "string"
  | array _ => "array"
  | object _ => "object"

/-- The value of a key. -/
def find? (key : String) : Json F → Option (Json F)
  | object items => (items.find? fun item => item.1 == key).map Prod.snd
  | _ => none

/-- `contains`. -/
def contains (key : String) (v : Json F) : Bool := (v.find? key).isSome

/-- `get` as a string. -/
def getString : Json F → Except String String
  | string s => .ok s
  | v => .error ("type must be string, but is " ++ v.typeName)

/-- `get` as a `size_t`; an integer is taken modulo `2 ^ 64`. -/
def getSize (ofFloat : F → BitVec 64) : Json F → Except String (BitVec 64)
  | numberInteger n => .ok (BitVec.ofInt 64 n)
  | numberFloat x => .ok (ofFloat x)
  | v => .error ("type must be number, but is " ++ v.typeName)

/-- `value`: the value of a key, or the default. -/
def value {α : Type} (get : Json F → Except String α) (key : String) (default : α)
    (v : Json F) : Except String α :=
  match v with
  | object _ =>
      match v.find? key with
      | some w => get w
      | none => .ok default
  | _ => .error ("cannot use value() with " ++ v.typeName)

end Json

end Nlohmann

namespace Kv260

open Nlohmann Blocks

/-! ### The manifest -/

/-- `size_t`. -/
abbrev SizeT : Type := BitVec 64

/-- `sidecar_tensor`. -/
structure SidecarTensor where
  name : String
  domain : String
  offsetBytes : SizeT
  nbytes : SizeT
  K : SizeT
  N : SizeT
  quant : String

/-- `sidecar_manifest`. -/
structure SidecarManifest where
  sourceModel : String := ""
  weightsFile : String := ""
  tensors : List (String × SidecarTensor) := []
  weightsBlob : List (BitVec 8) := []

/-- `emplace`: an entry of the same name stays. -/
def emplaceTensor (tensors : List (String × SidecarTensor)) (t : SidecarTensor) :
    List (String × SidecarTensor) :=
  if tensors.any fun e => e.1 == t.name then tensors else tensors ++ [(t.name, t)]

namespace SidecarManifest

/-- `find`. -/
def find (m : SidecarManifest) (name : String) : Option SidecarTensor :=
  (m.tensors.find? fun e => e.1 == name).map Prod.snd

/-- `name` with its ending `old`, which is not all of it, replaced by `new`. -/
def replaceSuffix (name old new : String) : Option String :=
  if old.length < name.length ∧ old.toList <:+ name.toList then
    some (String.ofList (name.toList.take (name.length - old.length)) ++ new)
  else none

/-- The aliases of a name, in the order in which they are tried. -/
def aliases (n : String) : List String :=
  if n = "output.weight" then ["output.weight", "output"]
  else if n = "output" then ["output.weight"]
  else if n = "mm.model.fc.weight" then ["mm.0.weight", "mm.1.weight"]
  else if n = "v.patch_embd.weight" then ["vision.patch_embed"]
  else if "v.blk.".toList <+: n.toList then
    match replaceSuffix n ".attn_out.weight" ".attn_output.weight" with
    | some renamed => [renamed]
    | none => (replaceSuffix n ".attn_output.weight" ".attn_out.weight").toList
  else []

/-- `find_alias`. -/
def findAlias (m : SidecarManifest) (name : String) : Option SidecarTensor :=
  match m.find name with
  | some t => some t
  | none => (aliases name).findSome? m.find

end SidecarManifest

/-! ### Loading -/

section Load

variable {F : Type}

/-- The fields of an entry. -/
def sidecarTensor (ofFloat : F → SizeT) (entry : Json F) : Except String SidecarTensor := do
  let name ← entry.value Json.getString "name" ""
  let domain ← entry.value Json.getString "domain" ""
  let offsetBytes ← entry.value (Json.getSize ofFloat) "offset_bytes" 0
  let nbytes ← entry.value (Json.getSize ofFloat) "nbytes" 0
  let K ← entry.value (Json.getSize ofFloat) "K" 0
  let N ← entry.value (Json.getSize ofFloat) "N" 0
  let quant ← entry.value Json.getString "quant" ""
  return { name, domain, offsetBytes, nbytes, K, N, quant }

/-- An entry is kept when it has a name and bytes, and ends inside the blob; its end is a
`size_t`. -/
def addTensor (blobSize : ℕ) (tensors : List (String × SidecarTensor)) (t : SidecarTensor) :
    List (String × SidecarTensor) :=
  if t.name = "" ∨ t.nbytes = 0 then tensors
  else if blobSize < (t.offsetBytes + t.nbytes).toNat then tensors
  else emplaceTensor tensors t

/-- The loop over the entries. -/
def loadTensors (ofFloat : F → SizeT) (blobSize : ℕ) (entries : List (Json F)) :
    Except String (List (String × SidecarTensor)) :=
  entries.foldlM
    (fun tensors entry => (sidecarTensor ofFloat entry).map (addTensor blobSize tensors)) []

/-- A separator of a path. -/
def isSlash (c : Char) : Bool := c == '/' || c == '\\'

/-- The path of the blob: a bare file name is taken from the directory of the manifest. -/
def blobPath (manifestPath weightsFile : String) : String :=
  if manifestPath.toList.any isSlash ∧ ¬ weightsFile.toList.any isSlash then
    String.ofList (manifestPath.toList.reverse.dropWhile fun c => !isSlash c).reverse
      ++ weightsFile
  else weightsFile

/-- What is loaded when the blob has been read. -/
def loadWithBlob (ofFloat : F → SizeT) (sourceModel weightsFile : String)
    (blob : List (BitVec 8)) (native : Json F) : Except String SidecarManifest :=
  match native.find? "tensors" with
  | some (.array entries) =>
      (loadTensors ofFloat blob.length entries).map fun tensors =>
        { sourceModel, weightsFile, tensors, weightsBlob := blob }
  | _ => .ok {}

/-- What is loaded from the value of `native_backend`. -/
def loadNative (fs : String → Option (List (BitVec 8))) (ofFloat : F → SizeT)
    (manifestPath sourceModel : String) (native : Json F) : Except String SidecarManifest := do
  let weightsFile ← native.value Json.getString "weights_file" ""
  if weightsFile = "" then return { sourceModel }
  else
    match fs (blobPath manifestPath weightsFile) with
    | none => return {}
    | some blob => loadWithBlob ofFloat sourceModel weightsFile blob native

/-- What is loaded from a parsed manifest. -/
def loadParsed (fs : String → Option (List (BitVec 8))) (ofFloat : F → SizeT)
    (manifestPath : String) (json : Json F) : Except String SidecarManifest :=
  match json.find? "native_backend" with
  | none => .ok {}
  | some native => do
      let sourceModel ← json.value Json.getString "source_model" ""
      loadNative fs ofFloat manifestPath sourceModel native

/-- `load_sidecar_manifest`, on the files `fs`; a text that `parse` discards counts as no
manifest. -/
def loadSidecarManifest (fs : String → Option (List (BitVec 8)))
    (parse : List (BitVec 8) → Option (Json F)) (ofFloat : F → SizeT) (manifestPath : String) :
    Except String SidecarManifest :=
  if manifestPath = "" then .ok {}
  else
    match (fs manifestPath).bind parse with
    | none => .ok {}
    | some json => loadParsed fs ofFloat manifestPath json

end Load

/-! ### Unpacking -/

/-- The bytes of a `block_q8_0`: its scale and 32 values. -/
abbrev blockBytes : ℕ := 34

/-- The position of byte `b` of a block of row `n`. -/
def blockByte (K n kg b : ℕ) : ℕ := (n * (K / 32) + kg) * blockBytes + b

/-- The bytes of the source that `unpack_q8_0_blob_to_split` reads, block by block. -/
def unpackReads (N K : ℕ) : List ℕ :=
  (List.range N).flatMap fun n =>
    (List.range (K / 32)).flatMap fun kg =>
      (List.range blockBytes).map (blockByte K n kg)

/-- The scales that it writes. -/
def unpackScales (src : ℕ → BitVec 8) (N K : ℕ) : List (BitVec 16) :=
  (List.range N).flatMap fun n =>
    (List.range (K / 32)).map fun kg => src (blockByte K n kg 1) ++ src (blockByte K n kg 0)

/-- The values that it writes. -/
def unpackValues (src : ℕ → BitVec 8) (N K : ℕ) : List (BitVec 8) :=
  (List.range N).flatMap fun n =>
    (List.range (K / 32)).flatMap fun kg =>
      (List.range 32).map fun i => src (blockByte K n kg (2 + i))

/-- The number of bytes of the blocks of a matrix. -/
def unpackBytes (N K : ℕ) : ℕ := N * (K / 32) * blockBytes

/-- The reads go through the bytes of the matrix one by one. -/
theorem unpackReads_eq_range (N K : ℕ) :
  unpackReads N K = List.range (unpackBytes N K)
  := by
  have hblocks : ∀ n, ((List.range (K / 32)).flatMap fun kg =>
      (List.range blockBytes).map (blockByte K n kg))
        = (List.range (K / 32 * blockBytes)).map fun j => n * (K / 32 * blockBytes) + j := by
    intro n
    rw [← map_range_mul]
    apply List.flatMap_congr
    intro kg _
    apply List.map_congr_left
    intro b _
    rw [blockByte, Nat.add_mul, Nat.mul_assoc, Nat.add_assoc]
  have hrows := map_range_mul N (K / 32 * blockBytes) id
  simp only [id_eq, List.map_id] at hrows
  rw [unpackBytes, Nat.mul_assoc, ← hrows]
  apply List.flatMap_congr
  intro n _
  apply hblocks

/-! ### The backend -/

inductive GgmlType where
  | f32
  | f16
  | q8_0
  | other
  deriving DecidableEq

inductive GgmlOp where
  | mulMat
  | other
  deriving DecidableEq

/-- What the backend looks at in a tensor; `hasExtra` says that its weights were unpacked
before. -/
structure GgmlTensor where
  name : String
  type : GgmlType
  ne : ℕ → ℤ
  contiguous : Bool
  hasExtra : Bool

/-- An operation with its operands. -/
structure GgmlNode where
  op : GgmlOp
  src0 : Option GgmlTensor
  src1 : Option GgmlTensor

/-- `runtime_state`, with the variable that disables the dispatch. -/
structure XrtRuntime where
  ready : Bool
  disableDispatch : Bool
  sidecar : SidecarManifest

/-- `kKernelMaxM`. -/
abbrev kKernelMaxM : ℤ := 1024

/-- The shapes of weights the kernel is built for. -/
def shapeOk (K N : ℤ) : Prop :=
  K = 768 ∧ (N = 768 ∨ N = 3072) ∨ K = 960 ∧ (N = 320 ∨ N = 960 ∨ N = 2560)

instance (K N : ℤ) : Decidable (shapeOk K N) :=
  inferInstanceAs (Decidable (_ ∨ _))

namespace XrtRuntime

variable (rt : XrtRuntime)

/-- The entry from which the weight is unpacked: it has the name of the weight, or an alias of
it, and its shape. -/
def sidecarFor (src0 : GgmlTensor) : Option SidecarTensor :=
  (rt.sidecar.findAlias src0.name).filter fun t =>
    t.quant = "q8_0" ∧ t.K = BitVec.ofInt 64 (src0.ne 0) ∧ t.N = BitVec.ofInt 64 (src0.ne 1)

/-- `supports_op` for a multiplication. -/
def SupportsMulMat (src0 src1 : GgmlTensor) : Prop :=
  src1.type = .f32 ∧ src0.contiguous ∧ src1.contiguous
    ∧ src0.ne 2 = 1 ∧ src0.ne 3 = 1 ∧ src1.ne 2 = 1 ∧ src1.ne 3 = 1
    ∧ (src0.type = .q8_0 ∨ (rt.sidecarFor src0).isSome)
    ∧ shapeOk (src0.ne 0) (src0.ne 1) ∧ 0 < src1.ne 1 ∧ src1.ne 1 ≤ kKernelMaxM

instance (src0 src1 : GgmlTensor) : Decidable (rt.SupportsMulMat src0 src1) :=
  inferInstanceAs (Decidable (_ ∧ _))

/-- `ggml_backend_xrt_device_supports_op`. -/
def supportsOp (node : GgmlNode) : Bool :=
  match node with
  | ⟨.mulMat, some src0, some src1⟩ =>
      rt.ready && !rt.disableDispatch && decide (rt.SupportsMulMat src0 src1)
  | _ => false

/-- The bytes of the blob that `ggml_backend_xrt_mul_mat` reads: those of the entry, the first
time the weight is used. -/
def mulMatReads (src0 : GgmlTensor) : List ℕ :=
  if src0.hasExtra then []
  else
    match rt.sidecarFor src0 with
    | some t =>
        (unpackReads (src0.ne 1).toNat (src0.ne 0).toNat).map fun p => t.offsetBytes.toNat + p
    | none => []

end XrtRuntime

/-! ### What is kept -/

/-- An entry that was kept has bytes and ends inside the blob, modulo `2 ^ 64`. -/
def SidecarTensor.Kept (blobSize : ℕ) (t : SidecarTensor) : Prop :=
  t.nbytes ≠ 0 ∧ (t.offsetBytes + t.nbytes).toNat ≤ blobSize

section Kept

variable {F : Type} {blobSize : ℕ}

theorem kept_addTensor {tensors : List (String × SidecarTensor)}
    (h : ∀ e ∈ tensors, e.2.Kept blobSize) (t : SidecarTensor) :
  ∀ e ∈ addTensor blobSize tensors t, e.2.Kept blobSize
  := by
  rw [addTensor, emplaceTensor]
  split_ifs with hempty hout hdup
  · apply h
  · apply h
  · apply h
  · intro e he
    rcases List.mem_append.mp he with he | he
    · apply h e he
    · obtain rfl := List.mem_singleton.mp he
      exact ⟨fun hzero => hempty (.inr hzero), Nat.le_of_not_lt hout⟩

theorem kept_loadTensors {ofFloat : F → SizeT} {entries : List (Json F)}
    {tensors : List (String × SidecarTensor)}
    (h : loadTensors ofFloat blobSize entries = .ok tensors) :
  ∀ e ∈ tensors, e.2.Kept blobSize
  := by
  apply Except.foldlM_invariant (fun ts => ∀ e ∈ ts, e.2.Kept blobSize) _ nofun h
  intro ts entry _ ts' hts hentry
  obtain ⟨t, -, rfl⟩ := Except.map_eq_ok_iff.mp hentry
  apply kept_addTensor hts

/-- The entries of a manifest were kept for its blob. -/
def SidecarManifest.Kept (m : SidecarManifest) : Prop :=
  ∀ e ∈ m.tensors, e.2.Kept m.weightsBlob.length

/-- The manifest that is returned has no entries. -/
theorem SidecarManifest.kept_of_tensors_eq_nil {m₀ m : SidecarManifest}
    (h : (.ok m₀ : Except String SidecarManifest) = .ok m) (hnil : m₀.tensors = []) :
  m.Kept
  := by
  obtain rfl := Except.ok.inj h
  intro e he
  rw [hnil] at he
  cases he

theorem kept_loadWithBlob {ofFloat : F → SizeT} {sourceModel weightsFile : String}
    {blob : List (BitVec 8)} {native : Json F} {m : SidecarManifest}
    (h : loadWithBlob ofFloat sourceModel weightsFile blob native = .ok m) :
  m.Kept
  := by
  rw [loadWithBlob] at h
  split at h
  · rename_i entries _
    obtain ⟨tensors, htensors, rfl⟩ := Except.map_eq_ok_iff.mp h
    apply kept_loadTensors htensors
  · apply SidecarManifest.kept_of_tensors_eq_nil h rfl

theorem kept_loadNative {fs : String → Option (List (BitVec 8))} {ofFloat : F → SizeT}
    {path sourceModel : String} {native : Json F} {m : SidecarManifest}
    (h : loadNative fs ofFloat path sourceModel native = .ok m) :
  m.Kept
  := by
  rw [loadNative] at h
  obtain ⟨weightsFile, -, h⟩ := Except.bind_eq_ok_iff.mp h
  split_ifs at h
  · apply SidecarManifest.kept_of_tensors_eq_nil h rfl
  · split at h
    · apply SidecarManifest.kept_of_tensors_eq_nil h rfl
    · apply kept_loadWithBlob h

/-- The entries of a loaded manifest. -/
theorem kept_loadSidecarManifest {fs : String → Option (List (BitVec 8))}
    {parse : List (BitVec 8) → Option (Json F)} {ofFloat : F → SizeT} {path : String}
    {m : SidecarManifest} (h : loadSidecarManifest fs parse ofFloat path = .ok m) :
  m.Kept
  := by
  rw [loadSidecarManifest] at h
  split_ifs at h
  · apply SidecarManifest.kept_of_tensors_eq_nil h rfl
  · split at h
    · apply SidecarManifest.kept_of_tensors_eq_nil h rfl
    · rename_i json _
      rw [loadParsed] at h
      split at h
      · apply SidecarManifest.kept_of_tensors_eq_nil h rfl
      · obtain ⟨sourceModel, -, h⟩ := Except.bind_eq_ok_iff.mp h
        apply kept_loadNative h

theorem SidecarManifest.Kept.find {m : SidecarManifest} (hm : m.Kept) {name : String}
    {t : SidecarTensor} (h : m.find name = some t) :
  t.Kept m.weightsBlob.length
  := by
  obtain ⟨e, he, rfl⟩ := Option.map_eq_some_iff.mp h
  apply hm e (List.mem_of_find?_eq_some he)

/-- `find_alias` gives an entry of the manifest. -/
theorem SidecarManifest.Kept.findAlias {m : SidecarManifest} (hm : m.Kept) {name : String}
    {t : SidecarTensor} (h : m.findAlias name = some t) :
  t.Kept m.weightsBlob.length
  := by
  rw [SidecarManifest.findAlias] at h
  split at h
  · rename_i t' ht'
    obtain rfl := Option.some.inj h
    apply hm.find ht'
  · obtain ⟨name', -, hname'⟩ := List.exists_of_findSome?_eq_some h
    apply hm.find hname'

end Kept

/-! ### Which reads are in bounds -/

/-- A byte of the blob that belongs to the entry. -/
def SidecarTensor.Owns (t : SidecarTensor) (blobSize p : ℕ) : Prop :=
  p < blobSize ∧ t.offsetBytes.toNat ≤ p ∧ p < t.offsetBytes.toNat + t.nbytes.toNat

/-- The blocks of a matrix lie inside the entry when it declares enough bytes for them, and
its end does not wrap around or the blocks end inside the blob. -/
theorem forall_owns_iff {t : SidecarTensor} {blobSize n : ℕ} (ht : t.Kept blobSize)
    (hn : 0 < n) :
  (∀ p < n, t.Owns blobSize (t.offsetBytes.toNat + p))
    ↔ n ≤ t.nbytes.toNat ∧ (t.offsetBytes.toNat + t.nbytes.toNat < 2 ^ 64
      ∨ t.offsetBytes.toNat + n ≤ blobSize)
  := by
  have hend := ht.2
  rw [BitVec.toNat_add] at hend
  constructor
  · intro h
    obtain ⟨hblob, -, hlt⟩ := h (n - 1) (by omega)
    constructor
    · omega
    · right
      omega
  · rintro ⟨hle, hfit⟩ p hp
    refine ⟨?_, Nat.le_add_right _ _, by omega⟩
    rcases hfit with hfit | hfit
    · rw [Nat.mod_eq_of_lt hfit] at hend
      omega
    · omega

/-- A supported shape has blocks. -/
theorem unpackBytes_pos {K N : ℤ} (h : shapeOk K N) :
  0 < unpackBytes N.toNat K.toNat
  := by
  rcases h with ⟨rfl, rfl | rfl⟩ | ⟨rfl, rfl | rfl | rfl⟩ <;> decide

/-- For every loaded manifest and every multiplication that is supported through an entry, the
bytes that are read belong to the entry and to the blob when the entry declares at least the
bytes of its blocks, and its end does not wrap around or the blocks end inside the blob. -/
theorem mulMatReads_owned_iff {F : Type} {fs : String → Option (List (BitVec 8))}
    {parse : List (BitVec 8) → Option (Json F)} {ofFloat : F → SizeT} {path : String}
    {rt : XrtRuntime} (hload : loadSidecarManifest fs parse ofFloat path = .ok rt.sidecar)
    {src0 src1 : GgmlTensor} (hsupports : rt.supportsOp ⟨.mulMat, some src0, some src1⟩ = true)
    (hextra : src0.hasExtra = false) {t : SidecarTensor} (ht : rt.sidecarFor src0 = some t) :
  (∀ p ∈ rt.mulMatReads src0, t.Owns rt.sidecar.weightsBlob.length p)
    ↔ unpackBytes (src0.ne 1).toNat (src0.ne 0).toNat ≤ t.nbytes.toNat
      ∧ (t.offsetBytes.toNat + t.nbytes.toNat < 2 ^ 64
        ∨ t.offsetBytes.toNat + unpackBytes (src0.ne 1).toNat (src0.ne 0).toNat
          ≤ rt.sidecar.weightsBlob.length)
  := by
  have hkept : t.Kept rt.sidecar.weightsBlob.length :=
    (kept_loadSidecarManifest hload).findAlias (Option.filter_eq_some_iff.mp ht).1
  rw [XrtRuntime.supportsOp, Bool.and_eq_true, decide_eq_true_iff] at hsupports
  obtain ⟨-, -, -, -, -, -, -, -, -, hshape, -⟩ := hsupports
  rw [← forall_owns_iff hkept (unpackBytes_pos hshape), XrtRuntime.mulMatReads, hextra, ht,
    unpackReads_eq_range]
  simp

/-! ### An entry of one byte -/

/-- A manifest whose only entry declares one byte, for a matrix of 768 rows and columns. -/
def oneByteManifest : Json Empty :=
  .object [("native_backend", .object [
    ("weights_file", .string "w.bin"),
    ("tensors", .array [.object [
      ("name", .string "w"), ("offset_bytes", .numberInteger 0), ("nbytes", .numberInteger 1),
      ("K", .numberInteger 768), ("N", .numberInteger 768), ("quant", .string "q8_0")]])])]

/-- The runtime that has loaded it, with a blob of one byte. -/
def oneByteRuntime : XrtRuntime where
  ready := true
  disableDispatch := false
  sidecar :=
    { weightsFile := "w.bin"
      tensors := [("w", ⟨"w", "", 0, 1, 768, 768, "q8_0"⟩)]
      weightsBlob := [0] }

/-- The weight and an activation row. -/
def oneByteWeight : GgmlTensor := ⟨"w", .f16, fun i => if i < 2 then 768 else 1, true, false⟩

def oneByteActivation : GgmlTensor := ⟨"x", .f32, fun i => if i = 0 then 768 else 1, true, false⟩

/-- The entry. -/
def oneByteEntry : SidecarTensor := ⟨"w", "", 0, 1, 768, 768, "q8_0"⟩

/-- The files: the blob and the text of the manifest, which is parsed below. -/
def oneByteFiles (path : String) : Option (List (BitVec 8)) :=
  if path = "w.bin" then some [0] else some []

theorem load_oneByteManifest :
  loadSidecarManifest oneByteFiles (fun _ => some oneByteManifest) (fun x => nomatch x) "m.json"
    = .ok oneByteRuntime.sidecar
  := by
  rfl

/-- The multiplication is supported, and its second read lies outside the blob. -/
theorem not_mulMatReads_owned :
  loadSidecarManifest oneByteFiles (fun _ => some oneByteManifest) (fun x => nomatch x) "m.json"
      = .ok oneByteRuntime.sidecar
    ∧ oneByteRuntime.supportsOp ⟨.mulMat, some oneByteWeight, some oneByteActivation⟩ = true
    ∧ oneByteRuntime.sidecarFor oneByteWeight = some oneByteEntry
    ∧ ¬ ∀ p ∈ oneByteRuntime.mulMatReads oneByteWeight,
      oneByteEntry.Owns oneByteRuntime.sidecar.weightsBlob.length p
  := by
  refine ⟨load_oneByteManifest, by decide, rfl, ?_⟩
  intro h
  have hreads : oneByteRuntime.mulMatReads oneByteWeight
      = (unpackReads (oneByteWeight.ne 1).toNat (oneByteWeight.ne 0).toNat).map fun p =>
        oneByteEntry.offsetBytes.toNat + p := by
    rw [XrtRuntime.mulMatReads, show oneByteWeight.hasExtra = false from rfl,
      show oneByteRuntime.sidecarFor oneByteWeight = some oneByteEntry from rfl]
    rfl
  have hread : 1 ∈ oneByteRuntime.mulMatReads oneByteWeight := by
    rw [hreads, unpackReads_eq_range]
    apply List.mem_map.mpr
    exact ⟨1, List.mem_range.mpr (by decide), rfl⟩
  have hlt : 1 < 1 := (h 1 hread).1
  omega

/-- A manifest with the entry of one byte, and behind it one with all bytes of its blocks. -/
def twoEntryManifest : Json Empty :=
  .object [("native_backend", .object [
    ("weights_file", .string "w.bin"),
    ("tensors", .array [.object [
      ("name", .string "w"), ("offset_bytes", .numberInteger 0), ("nbytes", .numberInteger 1),
      ("K", .numberInteger 768), ("N", .numberInteger 768), ("quant", .string "q8_0")], .object [
      ("name", .string "v"), ("offset_bytes", .numberInteger 1), ("nbytes", .numberInteger 626688),
      ("K", .numberInteger 768), ("N", .numberInteger 768), ("quant", .string "q8_0")]])])]

/-- The second entry, and its weight. -/
def wholeEntry : SidecarTensor := ⟨"v", "", 1, 626688, 768, 768, "q8_0"⟩

def wholeWeight : GgmlTensor := { oneByteWeight with name := "v" }

/-- The runtime that has loaded both entries with a blob. -/
def twoEntryRuntime (blob : List (BitVec 8)) : XrtRuntime where
  ready := true
  disableDispatch := false
  sidecar :=
    { weightsFile := "w.bin"
      tensors := [("w", oneByteEntry), ("v", wholeEntry)]
      weightsBlob := blob }

theorem load_twoEntryManifest {blob : List (BitVec 8)} (hlen : blob.length = 626689) :
  loadSidecarManifest (fun path => if path = "w.bin" then some blob else some [])
      (fun _ => some twoEntryManifest) (fun x => nomatch x) "m.json"
    = .ok (twoEntryRuntime blob).sidecar
  := by
  have hload : loadSidecarManifest (fun path => if path = "w.bin" then some blob else some [])
      (fun _ => some twoEntryManifest) (fun x => nomatch x) "m.json"
      = .ok { (twoEntryRuntime blob).sidecar with
          tensors := addTensor blob.length (addTensor blob.length [] oneByteEntry) wholeEntry } :=
    rfl
  rw [hload, hlen]
  rfl

/-- The entry of one byte, and the second entry of a blob with all of its bytes. -/
theorem mulMatReads_owned_iff_oneByte :
  ((∀ p ∈ oneByteRuntime.mulMatReads oneByteWeight,
        oneByteEntry.Owns oneByteRuntime.sidecar.weightsBlob.length p)
      ↔ unpackBytes 768 768 ≤ 1 ∧ (0 + 1 < 2 ^ 64 ∨ 0 + unpackBytes 768 768 ≤ 1))
    ∧ ∀ p ∈ (twoEntryRuntime (List.replicate 626689 7)).mulMatReads wholeWeight,
      wholeEntry.Owns (List.replicate 626689 (7 : BitVec 8)).length p
  := by
  have hsupports :
      oneByteRuntime.supportsOp ⟨.mulMat, some oneByteWeight, some oneByteActivation⟩ = true := by
    decide
  have hwhole : ∀ blob, (twoEntryRuntime blob).supportsOp
      ⟨.mulMat, some wholeWeight, some oneByteActivation⟩ = true := fun _ => rfl
  have hentry : ∀ blob, (twoEntryRuntime blob).sidecarFor wholeWeight = some wholeEntry :=
    fun _ => rfl
  constructor
  · exact mulMatReads_owned_iff load_oneByteManifest hsupports rfl
      (rfl : oneByteRuntime.sidecarFor oneByteWeight = some oneByteEntry)
  · apply (mulMatReads_owned_iff (load_twoEntryManifest List.length_replicate) (hwhole _) rfl
      (hentry _)).mpr
    exact ⟨by decide, .inl (by decide)⟩

end Kv260
