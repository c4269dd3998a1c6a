import SmolVlm2Kv260.Export.Rtn
import SmolVlm2Kv260.Host.Runner

/-!
# The weights of the normalisations

Each layer has a vector `gamma` before its attention and one before its feed-forward part.
The export writes those of all layers to two files, one layer after the other.  The runner
binds the buffers of the two files to every launch, and `load_gamma` reads their first words.
-/

set_option autoImplicit false

namespace Kv260

open Blocks

/-! ### The export -/

/-- `gamma_attn` or `gamma_ffn` of a layer: the weights of the normalisation times 64. -/
def exportedGamma (w : ℕ → ℚ) : List (BitVec 8) :=
  (List.range C).map fun c => BitVec.ofInt 8 (npClip (-127) 127 (npRound (w c * 64)))

/-- `gamma_attn.bin` or `gamma_ffn.bin`, for `n` layers. -/
def gammaFile (w : ℕ → ℕ → ℚ) (n : ℕ) : List (BitVec 8) :=
  (List.range n).flatMap fun layer => exportedGamma (w layer)

/-- The weights of the normalisations of a model, by layer and column. -/
structure NormWeights where
  attn : ℕ → ℕ → ℚ
  ffn : ℕ → ℕ → ℚ

theorem length_exportedGamma (w : ℕ → ℚ) :
  (exportedGamma w).length = C
  := by rw [exportedGamma, List.length_map, List.length_range]

/-! ### The launches -/

/-- A launch with the buffers bound to its ports `gamma_attn` and `gamma_ffn`. -/
structure BoundLaunch extends Launch where
  gammaAttn : ℕ → BitVec 8
  gammaFfn : ℕ → BitVec 8

namespace BoundLaunch

variable (l : BoundLaunch)

/-- `gamma_attn_buf`, by which `rmsnorm_quant` multiplies before the attention. -/
def gammaAttnBuf : List ℤ := loadGamma (axiWord l.gammaAttn)

/-- `gamma_ffn_buf`, by which `rmsnorm_quant` multiplies before the feed-forward part. -/
def gammaFfnBuf : List ℤ := loadGamma (axiWord l.gammaFfn)

/-- The launch applies the vectors that were exported for its layer. -/
def AppliesExportedGamma (norms : NormWeights) : Prop :=
  l.gammaAttnBuf = (exportedGamma (norms.attn l.layerId)).map BitVec.toInt
    ∧ l.gammaFfnBuf = (exportedGamma (norms.ffn l.layerId)).map BitVec.toInt

end BoundLaunch

/-- The launches of a call of the runner, which binds `gamma_attn_` and `gamma_ffn_` to all of
them. -/
def RunnerCall.boundLaunches (call : RunnerCall) (offsets : List WeightOffsets)
    (gammaAttn gammaFfn : ℕ → BitVec 8) : List BoundLaunch :=
  (call.launches offsets).map fun l => ⟨l, gammaAttn, gammaFfn⟩

/-! ### Which vector is applied -/

theorem loadGamma_axiWord (bytes : ℕ → BitVec 8) :
  loadGamma (axiWord bytes) = (List.range C).map fun c => (bytes c).toInt
  := by
  have hrange := map_range_mul (C / 32) 32 fun c => (bytes c).toInt
  have hwhole : C / 32 * 32 = C := by decide
  rw [hwhole] at hrange
  rw [← hrange, loadGamma]
  apply List.flatMap_congr
  intro v _
  apply List.map_congr_left
  intro b hb
  rw [extractLsb'_axiWord bytes v (List.mem_range.mp hb), Nat.mul_comm 32]

/-- From a buffer that holds the whole file, `load_gamma` takes the vector of layer 0. -/
theorem loadGamma_gammaFile {w : ℕ → ℕ → ℚ} {n : ℕ} (hn : 0 < n) {bytes : ℕ → BitVec 8}
    (hbytes : ∀ i < (gammaFile w n).length, (gammaFile w n)[i]? = some (bytes i)) :
  loadGamma (axiWord bytes) = (exportedGamma (w 0)).map BitVec.toInt
  := by
  have hlen : (gammaFile w n).length = n * C :=
    length_flatMap_range fun l _ => length_exportedGamma (w l)
  have hbyte : ∀ c < C, some (bytes c) = (exportedGamma (w 0))[c]? := by
    intro c hc
    have hblock := getElem?_flatMap_range (f := fun layer => exportedGamma (w layer))
      (fun l _ => length_exportedGamma (w l)) hn hc
    have hlt : c < n * C := Nat.lt_of_lt_of_le hc (Nat.le_mul_of_pos_left C hn)
    rw [Nat.zero_mul, Nat.zero_add] at hblock
    rw [← hbytes c (by rw [hlen]; exact hlt), ← hblock]
    rfl
  rw [loadGamma_axiWord]
  apply List.ext_getElem?
  intro c
  rcases Nat.lt_or_ge c C with hc | hc
  · rw [List.getElem?_map, List.getElem?_range hc, List.getElem?_map, ← hbyte c hc]
    rfl
  · rw [List.getElem?_eq_none, List.getElem?_eq_none]
    · rw [List.length_map, length_exportedGamma]
      exact hc
    · rw [List.length_map, List.length_range]
      exact hc

theorem map_toInt_inj {xs ys : List (BitVec 8)} :
  xs.map BitVec.toInt = ys.map BitVec.toInt ↔ xs = ys
  := List.map_inj_right fun _ _ h => BitVec.eq_of_toInt_eq h

section Launches

variable (call : RunnerCall) (offsets : List WeightOffsets) (norms : NormWeights)
  {gammaAttn gammaFfn : ℕ → BitVec 8}

/-- On buffers that hold the exported files, every launch multiplies by the vectors of
layer 0. -/
theorem gammaBufs_eq
    (hattn : ∀ i < (gammaFile norms.attn numLayers).length,
      (gammaFile norms.attn numLayers)[i]? = some (gammaAttn i))
    (hffn : ∀ i < (gammaFile norms.ffn numLayers).length,
      (gammaFile norms.ffn numLayers)[i]? = some (gammaFfn i))
    {l : BoundLaunch} (hl : l ∈ call.boundLaunches offsets gammaAttn gammaFfn) :
  l.gammaAttnBuf = (exportedGamma (norms.attn 0)).map BitVec.toInt
    ∧ l.gammaFfnBuf = (exportedGamma (norms.ffn 0)).map BitVec.toInt
  := by
  obtain ⟨launch, -, rfl⟩ := List.mem_map.mp hl
  constructor
  · apply loadGamma_gammaFile (by decide) hattn
  · apply loadGamma_gammaFile (by decide) hffn

/-- On buffers that hold the exported files, a launch of any call applies the vectors of its
layer exactly when they are exported as those of layer 0. -/
theorem appliesExportedGamma_iff
    (hattn : ∀ i < (gammaFile norms.attn numLayers).length,
      (gammaFile norms.attn numLayers)[i]? = some (gammaAttn i))
    (hffn : ∀ i < (gammaFile norms.ffn numLayers).length,
      (gammaFile norms.ffn numLayers)[i]? = some (gammaFfn i))
    {l : BoundLaunch} (hl : l ∈ call.boundLaunches offsets gammaAttn gammaFfn) :
  l.AppliesExportedGamma norms
    ↔ exportedGamma (norms.attn l.layerId) = exportedGamma (norms.attn 0)
      ∧ exportedGamma (norms.ffn l.layerId) = exportedGamma (norms.ffn 0)
  := by
  obtain ⟨hzero, hzero'⟩ := gammaBufs_eq call offsets norms hattn hffn hl
  rw [BoundLaunch.AppliesExportedGamma, hzero, hzero', map_toInt_inj, map_toInt_inj, eq_comm,
    eq_comm (a := exportedGamma (norms.ffn 0))]

end Launches

/-- A buffer that holds a file. -/
def bufferOf (file : List (BitVec 8)) (i : ℕ) : BitVec 8 := file.getD i 0

theorem getElem?_bufferOf (file : List (BitVec 8)) {i : ℕ} (hi : i < file.length) :
  file[i]? = some (bufferOf file i)
  := by rw [bufferOf, List.getD_eq_getElem?_getD, List.getElem?_eq_getElem hi, Option.getD_some]

/-- The weights of the normalisations are one in layer 0 and zero in the others. -/
def firstLayerNorms : NormWeights where
  attn layer _ := if layer = 0 then 1 else 0
  ffn layer _ := if layer = 0 then 1 else 0

/-- The launches of a call on buffers that hold the vectors of these layers. -/
def firstLayerLaunches (call : RunnerCall) : List BoundLaunch :=
  call.boundLaunches [] (bufferOf (gammaFile firstLayerNorms.attn numLayers))
    (bufferOf (gammaFile firstLayerNorms.ffn numLayers))

/-- There is a launch of each layer. -/
theorem exists_firstLayerLaunch {layer : ℕ} (h : layer < numLayers) :
  ∃ l ∈ firstLayerLaunches (.decodeTtftToken 0 0), l.layerId = layer
  := by
  let l := (RunnerCall.decodeTtftToken 0 0).launch [] layer (0, 1)
  have hl : l ∈ (RunnerCall.decodeTtftToken 0 0).launches [] :=
    RunnerCall.mem_launches.mpr ⟨layer, h, (0, 1), List.mem_singleton_self _, rfl⟩
  exact ⟨_, List.mem_map_of_mem hl, RunnerCall.layerId_launch _ [] layer (0, 1)⟩

/-- The launches of layer 0 apply its vectors. -/
theorem appliesExportedGamma_layerZero :
  ∃ l ∈ firstLayerLaunches (.decodeTtftToken 0 0), l.AppliesExportedGamma firstLayerNorms
  := by
  obtain ⟨l, hl, hlayer⟩ := exists_firstLayerLaunch (show 0 < numLayers by decide)
  refine ⟨l, hl, ?_⟩
  apply (appliesExportedGamma_iff _ _ firstLayerNorms (fun _ => getElem?_bufferOf _)
    (fun _ => getElem?_bufferOf _) hl).mpr
  rw [hlayer]
  exact ⟨rfl, rfl⟩

/-- Those of layer 1 apply the vectors of layer 0. -/
theorem not_appliesExportedGamma_layerOne :
  ∃ l ∈ firstLayerLaunches (.decodeTtftToken 0 0), l.layerId = 1
    ∧ ¬ l.AppliesExportedGamma firstLayerNorms
  := by
  obtain ⟨l, hl, hlayer⟩ := exists_firstLayerLaunch (show 1 < numLayers by decide)
  refine ⟨l, hl, hlayer, ?_⟩
  rintro ⟨hattn, -⟩
  obtain ⟨hzero, -⟩ := gammaBufs_eq _ _ firstLayerNorms (fun _ => getElem?_bufferOf _)
    (fun _ => getElem?_bufferOf _) hl
  rw [hzero, hlayer, map_toInt_inj] at hattn
  -- the first entries are those of one and of zero
  have hfirst := congrArg (fun file => file[0]?) hattn
  have hone : npRound 64 = 64 := npRound_intCast 64
  have hround : npRound 0 = 0 := npRound_intCast 0
  simp [exportedGamma, firstLayerNorms, hone, hround, npClip] at hfirst

end Kv260
