import SmolVlm2Kv260.Export.Rtn
import SmolVlm2Kv260.Host.Runner

/-!
# The exported weights

`_quantize_layer_bundle` and `export_kv260_w4a8_bundle` of `export.py`: the rows of each
matrix are split into a first and a second half; the halves of the matrices of a layer, and
those of the layers, follow each other in the files.  Both the weights and the metadata are
sequences of blocks, one for each group of 32 weights, in the same order (`fileBlocks`).
-/

set_option autoImplicit false

namespace Kv260

open Blocks

/-! ### The files -/

/-- The weights of a layer: entry `(row, column)` of each matrix. -/
abbrev LayerWeights : Type := LayerMatrix → ℕ → ℕ → ℚ

/-- The matrices in the order of the export. -/
def LayerMatrix.all : List LayerMatrix := [.qkv, .o, .gateUp, .down]

/-- The rows `[:half]` or `[half:]` of a matrix with `outFeatures` rows. -/
def halfRows (outFeatures : ℕ) (h : Fin 2) : List ℕ :=
  let half := outFeatures / 2
  if h = 0 then List.range half else (List.range (outFeatures - half)).map (half + ·)

/-- A row of `packed`. -/
def packedRow (inFeatures : ℕ) (w : ℕ → ℚ) : List (BitVec 8) :=
  (List.range (inFeatures / 2)).map (rtnPacked grp w)

/-- A row of `meta`: scale and zero point in turn. -/
def metaRow (inFeatures : ℕ) (w : ℕ → ℚ) : List (BitVec 8) :=
  (List.range (inFeatures / grp)).flatMap fun g => [rtnScaleByte grp w g, rtnZeroByte]

/-- `weight_half0` or `weight_half1` of a layer. -/
def weightHalf (h : Fin 2) (W : LayerWeights) : List (BitVec 8) :=
  LayerMatrix.all.flatMap fun m =>
    (halfRows m.outCols h).flatMap fun row => packedRow m.inCols (W m row)

/-- `meta_half0` or `meta_half1` of a layer. -/
def metaHalf (h : Fin 2) (W : LayerWeights) : List (BitVec 8) :=
  LayerMatrix.all.flatMap fun m =>
    (halfRows m.outCols h).flatMap fun row => metaRow m.inCols (W m row)

/-- `weights_half0.bin` or `weights_half1.bin`, for the first `n` layers. -/
def weightsFile (h : Fin 2) (W : ℕ → LayerWeights) (n : ℕ) : List (BitVec 8) :=
  (List.range n).flatMap fun l => weightHalf h (W l)

/-- `meta_half0.bin` or `meta_half1.bin`, for the first `n` layers. -/
def metaFile (h : Fin 2) (W : ℕ → LayerWeights) (n : ℕ) : List (BitVec 8) :=
  (List.range n).flatMap fun l => metaHalf h (W l)

/-- The offsets of a layer in the manifest. -/
def manifestOffsets (W : ℕ → LayerWeights) (layer : ℕ) : WeightOffsets where
  wgtAxi := (weightsFile 0 W layer).length / 32
  metaAxi := (metaFile 0 W layer).length / 32

/-! ### Blocks -/

/-- The groups of a row. -/
def LayerMatrix.groups (m : LayerMatrix) : ℕ := m.inCols / grp

/-- The blocks before those of a matrix, in its layer. -/
def LayerMatrix.blockBase : LayerMatrix → ℕ
  | .qkv => 0
  | .o => 24000
  | .gateUp => 38400
  | .down => 115200

/-- The blocks of half a layer. -/
def layerBlocks : ℕ := 153600

/-- The matrix of a block in its layer. -/
def blockMatrix (x : ℕ) : LayerMatrix :=
  if x < 24000 then .qkv else if x < 38400 then .o else if x < 115200 then .gateUp else .down

/-- The row of a block in half `h` of its layer. -/
def blockRow (h : Fin 2) (x : ℕ) : ℕ :=
  let m := blockMatrix x
  h * (m.outCols / 2) + (x - m.blockBase) / m.groups

/-- The group of a block in its row. -/
def blockGroup (x : ℕ) : ℕ :=
  let m := blockMatrix x
  (x - m.blockBase) % m.groups

/-- The rows of half a matrix, each made of blocks. -/
theorem flatMap_halfRows (m : LayerMatrix) (h : Fin 2) (f : ℕ → ℕ → List (BitVec 8)) :
  ((halfRows m.outCols h).flatMap fun row => (List.range m.groups).flatMap (f row))
    = (List.range (m.outCols / 2 * m.groups)).flatMap fun u =>
      f (h * (m.outCols / 2) + u / m.groups) (u % m.groups)
  := by
  have heven : m.outCols - m.outCols / 2 = m.outCols / 2 := by cases m <;> decide
  rw [← flatMap_range_div_mod _ _ fun r => f (h * (m.outCols / 2) + r)]
  rcases Fin.eq_zero_or_eq_succ h with rfl | ⟨i, rfl⟩
  · simp only [halfRows, if_true, Fin.val_zero, Nat.zero_mul, Nat.zero_add]
  · obtain rfl : i = 0 := Subsingleton.elim i 0
    have hone : (Fin.succ (0 : Fin 1) : Fin 2) ≠ 0 := by decide
    simp only [halfRows, if_neg hone, heven, List.flatMap_map, Fin.val_succ, Fin.val_zero,
      Nat.zero_add, Nat.one_mul]

/-- The blocks of a matrix are those from its base on. -/
theorem blockMatrix_blockBase (m : LayerMatrix) {u : ℕ} (hu : u < m.outCols / 2 * m.groups) :
  blockMatrix (m.blockBase + u) = m
  := by
  rw [blockMatrix]
  cases m with
  | qkv =>
      change u < 24000 at hu
      rw [LayerMatrix.blockBase, if_pos (by omega)]
  | o =>
      change u < 14400 at hu
      rw [LayerMatrix.blockBase, if_neg (by omega), if_pos (by omega)]
  | gateUp =>
      change u < 76800 at hu
      rw [LayerMatrix.blockBase, if_neg (by omega), if_neg (by omega), if_pos (by omega)]
  | down =>
      rw [LayerMatrix.blockBase, if_neg (by omega), if_neg (by omega), if_neg (by omega)]

theorem blockBase_blockMatrix_le (x : ℕ) :
  (blockMatrix x).blockBase ≤ x
  := by
  rw [blockMatrix]
  split_ifs with hqkv ho hgateUp
  · apply Nat.zero_le
  · change 24000 ≤ x
    omega
  · change 38400 ≤ x
    omega
  · change 115200 ≤ x
    omega

theorem blockMatrix_eq_qkv_iff {x : ℕ} :
  blockMatrix x = .qkv ↔ x < 24000
  := by
  rw [blockMatrix]
  split_ifs with hqkv ho hgateUp <;> simp [hqkv]

/-- Half a layer as one sequence of blocks. -/
theorem layer_eq_blocks (h : Fin 2) (f : LayerMatrix → ℕ → ℕ → List (BitVec 8)) :
  (LayerMatrix.all.flatMap fun m =>
      (halfRows m.outCols h).flatMap fun row => (List.range m.groups).flatMap (f m row))
    = (List.range layerBlocks).flatMap fun x => f (blockMatrix x) (blockRow h x) (blockGroup x)
  := by
  have hpart : ∀ m : LayerMatrix,
      ((halfRows m.outCols h).flatMap fun row => (List.range m.groups).flatMap (f m row))
        = (List.range (m.outCols / 2 * m.groups)).flatMap fun u =>
          f (blockMatrix (m.blockBase + u)) (blockRow h (m.blockBase + u))
            (blockGroup (m.blockBase + u)) := by
    intro m
    rw [flatMap_halfRows]
    apply List.flatMap_congr
    intro u hu
    rw [blockRow, blockGroup, blockMatrix_blockBase m (List.mem_range.mp hu),
      Nat.add_sub_cancel_left]
  have hsum : layerBlocks = 24000 + 14400 + 76800 + 38400 := rfl
  rw [hsum, flatMap_range_append, flatMap_range_append, flatMap_range_append]
  simp only [LayerMatrix.all, List.flatMap_cons, List.flatMap_nil, List.append_nil, hpart,
    List.append_assoc]
  simp only [LayerMatrix.blockBase, Nat.zero_add]
  rfl

/-- The files as one sequence of blocks. -/
def fileBlocks (h : Fin 2) (W : ℕ → LayerWeights) (block : (ℕ → ℚ) → ℕ → List (BitVec 8))
    (n : ℕ) : List (BitVec 8) :=
  (List.range (n * layerBlocks)).flatMap fun u =>
    block (W (u / layerBlocks) (blockMatrix (u % layerBlocks)) (blockRow h (u % layerBlocks)))
      (blockGroup (u % layerBlocks))

/-- The block of a group in the files of weights. -/
def weightBlock (w : ℕ → ℚ) (g : ℕ) : List (BitVec 8) :=
  (List.range 16).map fun b => rtnPacked grp w (g * 16 + b)

/-- The block of a group in the files of metadata. -/
def metaBlock (w : ℕ → ℚ) (g : ℕ) : List (BitVec 8) := [rtnScaleByte grp w g, rtnZeroByte]

/-- A row of whole groups is a sequence of blocks. -/
theorem packedRow_eq_weightBlocks {inFeatures : ℕ} (hgrp : grp ∣ inFeatures) (w : ℕ → ℚ) :
  packedRow inFeatures w = (List.range (inFeatures / grp)).flatMap (weightBlock w)
  := by
  have hbytes : inFeatures / 2 = inFeatures / grp * 16 := by
    change 32 ∣ inFeatures at hgrp
    change inFeatures / 2 = inFeatures / 32 * 16
    omega
  rw [packedRow, hbytes, ← map_range_mul]
  rfl

theorem packedRow_eq_blocks (m : LayerMatrix) (w : ℕ → ℚ) :
  packedRow m.inCols w = (List.range m.groups).flatMap (weightBlock w)
  := packedRow_eq_weightBlocks (by cases m <;> decide) w

theorem weightsFile_eq_blocks (h : Fin 2) (W : ℕ → LayerWeights) (n : ℕ) :
  weightsFile h W n = fileBlocks h W weightBlock n
  := by
  have hlayer : ∀ l, weightHalf h (W l) = (List.range layerBlocks).flatMap fun x =>
      weightBlock (W l (blockMatrix x) (blockRow h x)) (blockGroup x) := by
    intro l
    rw [← layer_eq_blocks h fun m row => weightBlock (W l m row)]
    simp only [weightHalf, packedRow_eq_blocks]
  simp only [weightsFile, hlayer]
  apply flatMap_range_div_mod

theorem metaFile_eq_blocks (h : Fin 2) (W : ℕ → LayerWeights) (n : ℕ) :
  metaFile h W n = fileBlocks h W metaBlock n
  := by
  have hlayer : ∀ l, metaHalf h (W l) = (List.range layerBlocks).flatMap fun x =>
      metaBlock (W l (blockMatrix x) (blockRow h x)) (blockGroup x) := by
    intro l
    rw [← layer_eq_blocks h fun m row => metaBlock (W l m row)]
    rfl
  simp only [metaFile, hlayer]
  apply flatMap_range_div_mod

theorem length_weightBlock (w : ℕ → ℚ) (g : ℕ) :
  (weightBlock w g).length = 16
  := by
  rw [weightBlock, List.length_map, List.length_range]

theorem length_metaBlock (w : ℕ → ℚ) (g : ℕ) :
  (metaBlock w g).length = 2
  := rfl

/-- The offsets of the manifest, in words of 32 bytes. -/
theorem manifestOffsets_eq (W : ℕ → LayerWeights) (layer : ℕ) :
  manifestOffsets W layer = ⟨layer * 76800, layer * 9600⟩
  := by
  have hwgt : (weightsFile 0 W layer).length = layer * layerBlocks * 16 := by
    rw [weightsFile_eq_blocks]
    apply length_flatMap_range
    intro u _
    apply length_weightBlock
  have hmeta : (metaFile 0 W layer).length = layer * layerBlocks * 2 := by
    rw [metaFile_eq_blocks]
    apply length_flatMap_range
    intro u _
    apply length_metaBlock
  rw [manifestOffsets, hwgt, hmeta]
  change WeightOffsets.mk (layer * 153600 * 16 / 32) (layer * 153600 * 2 / 32) = _
  congr 1
  · omega
  · omega

end Kv260
