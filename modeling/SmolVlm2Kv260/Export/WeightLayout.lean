import SmolVlm2Kv260.Export.Bundle
import SmolVlm2Kv260.Kernel.UnifiedGemm

/-!
# Where the kernel finds the weights

The export stores the first half of the rows of a matrix in one file and the second half in
the other.  `w4a8_gemm` takes even columns from one port and odd columns from the other, at
the offset that the column would have in a single sequence.  This module compares the block
that the kernel fetches with the block of the export.
-/

set_option autoImplicit false

namespace Kv260

open Blocks

/-! ### Ports on byte memories -/

/-- The weight ports on four byte memories. -/
def WeightPorts.ofBytes (wgt meta_ : Fin 2 → ℕ → BitVec 8) : WeightPorts where
  wgtHalf0 := axiWord (wgt 0)
  wgtHalf1 := axiWord (wgt 1)
  metaHalf0 := axiWord (meta_ 0)
  metaHalf1 := axiWord (meta_ 1)

/-- The half that `w4a8_gemm` reads for a column. -/
def columnHalf (n : ℕ) : Fin 2 := Fin.ofNat 2 n

/-- The port of a column, as the branch on its parity takes it. -/
theorem axiWord_columnHalf (mem : Fin 2 → ℕ → BitVec 8) (n i : ℕ) :
  (if n % 2 = 0 then axiWord (mem 0) i else axiWord (mem 1) i) = axiWord (mem (columnHalf n)) i
  := by
  rcases Nat.mod_two_eq_zero_or_one n with h | h
  · have hhalf : columnHalf n = 0 := Fin.ext h
    rw [if_pos h, hhalf]
  · have hhalf : columnHalf n = 1 := Fin.ext h
    rw [if_neg (by omega), hhalf]

/-- The bits of a pack are those of 16 bytes. -/
theorem unifiedPack_getLsbD (bytes : ℕ → BitVec 8) (w off : ℕ) {i : ℕ} (hi : i < 128) :
  (unifiedPack (fun j => axiWord bytes (w + j)) off).getLsbD i
    = (bytes (32 * w + 16 * off + i / 8)).getLsbD (i % 8)
  := by
  simp only [unifiedPack]
  rcases Nat.mod_two_eq_zero_or_one off with h | h
  · have hbyte : 32 * (w + off / 2) + (0 + i) / 8 = 32 * w + 16 * off + i / 8 := by omega
    have hbit : 0 + i < 256 := by omega
    rw [if_pos h, getLsbD_extractLsb'_of_lt _ _ hi, axiWord, getLsbD_ofBits_of_lt _ hbit, hbyte,
      Nat.zero_add]
  · have hbyte : 32 * (w + off / 2) + (128 + i) / 8 = 32 * w + 16 * off + i / 8 := by omega
    have hmod : (128 + i) % 8 = i % 8 := by omega
    have hbit : 128 + i < 256 := by omega
    rw [if_neg (by omega), getLsbD_extractLsb'_of_lt _ _ hi, axiWord, getLsbD_ofBits_of_lt _ hbit,
      hbyte, hmod]

/-- The metadata of a group are two bytes. -/
theorem unifiedMeta_axiWord (bytes : ℕ → BitVec 8) (m off : ℕ) :
  unifiedMeta (fun j => axiWord bytes (m + j)) off
    = (bytes (32 * m + 2 * off), bytes (32 * m + 2 * off + 1))
  := by
  have hlane : 2 * (off % 16) < 32 := by omega
  have hlane' : 2 * (off % 16) + 1 < 32 := by omega
  have hscale := extractLsb'_axiWord bytes (m + off / 16) hlane
  have hzero := extractLsb'_axiWord bytes (m + off / 16) hlane'
  have hshift : 2 * (off % 16) * 8 = off % 16 * 16 := by omega
  have hshift' : (2 * (off % 16) + 1) * 8 = off % 16 * 16 + 8 := by omega
  have hbyte : 32 * (m + off / 16) + 2 * (off % 16) = 32 * m + 2 * off := by omega
  have hbyte' : 32 * (m + off / 16) + (2 * (off % 16) + 1) = 32 * m + 2 * off + 1 := by omega
  rw [hshift, hbyte] at hscale
  rw [hshift', hbyte'] at hzero
  simp only [unifiedMeta, hscale, hzero]

section Fetch

variable (wgt meta_ : Fin 2 → ℕ → BitVec 8) (w m kGrps n kg : ℕ)

/-- The bits of a fetched pack are those of 16 bytes. -/
theorem fetchPack_getLsbD {i : ℕ} (hi : i < 128) :
  (((WeightPorts.ofBytes wgt meta_).advance w m).fetchPack kGrps n kg).getLsbD i
    = (wgt (columnHalf n) (32 * w + 16 * (n * kGrps + kg) + i / 8)).getLsbD (i % 8)
  := by
  rw [← unifiedPack_getLsbD _ w _ hi]
  simp only [WeightPorts.fetchPack, WeightPorts.advance, WeightPorts.ofBytes, axiWord_columnHalf]
  rfl

/-- Fetched metadata are two bytes. -/
theorem fetchMeta_eq :
  ((WeightPorts.ofBytes wgt meta_).advance w m).fetchMeta kGrps n kg
    = (meta_ (columnHalf n) (32 * m + 2 * (n * kGrps + kg)),
      meta_ (columnHalf n) (32 * m + 2 * (n * kGrps + kg) + 1))
  := by
  rw [← unifiedMeta_axiWord]
  simp only [WeightPorts.fetchMeta, WeightPorts.advance, WeightPorts.ofBytes, axiWord_columnHalf]
  rfl

end Fetch

/-! ### The loaded files -/

/-- The memory of a buffer that a file has been loaded into. -/
def fileMemory (file : List (BitVec 8)) (beyond : ℕ → BitVec 8) (i : ℕ) : BitVec 8 :=
  file[i]?.getD (beyond i)

/-- The ports when the files of `nLayers` layers are loaded. -/
def exportedPorts (W : ℕ → LayerWeights) (nLayers : ℕ)
    (wgtBeyond metaBeyond : Fin 2 → ℕ → BitVec 8) : WeightPorts :=
  .ofBytes (fun h => fileMemory (weightsFile h W nLayers) (wgtBeyond h))
    fun h => fileMemory (metaFile h W nLayers) (metaBeyond h)

/-- The weights of a group as the kernel unpacks them. -/
def exportedPack (w : ℕ → ℚ) (g : ℕ) : WgtPack :=
  ofBits 128 fun i => (rtnPacked grp w (g * 16 + i / 8)).getLsbD (i % 8)

/-- The kernel fetches a group of a column of layer `layer` as it was exported. -/
def FetchesExported (m : LayerMatrix) (layer n kg : ℕ) : Prop :=
  ∀ (W : ℕ → LayerWeights) (nLayers : ℕ) (wgtBeyond metaBeyond : Fin 2 → ℕ → BitVec 8) (l : Launch),
    layer < nLayers → l.wgtOffset = (manifestOffsets W layer).wgtAxi →
    l.metaOffset = (manifestOffsets W layer).metaAxi →
    (l.gemmPorts (exportedPorts W nLayers wgtBeyond metaBeyond) m).fetchPack m.groups n kg
        = exportedPack (W layer m n) kg
      ∧ (l.gemmPorts (exportedPorts W nLayers wgtBeyond metaBeyond) m).fetchMeta m.groups n kg
        = (rtnScaleByte grp (W layer m n) kg, rtnZeroByte)

/-- The `b`-th byte of block `u` of the memory of a file. -/
theorem fileMemory_block {h : Fin 2} {W : ℕ → LayerWeights}
    {block : (ℕ → ℚ) → ℕ → List (BitVec 8)} {nLayers k u b : ℕ}
    (hlen : ∀ w g, (block w g).length = k) (hu : u < nLayers * layerBlocks) (hb : b < k)
    (beyond : ℕ → BitVec 8) :
  fileMemory (fileBlocks h W block nLayers) beyond (u * k + b)
    = (block (W (u / layerBlocks) (blockMatrix (u % layerBlocks))
        (blockRow h (u % layerBlocks))) (blockGroup (u % layerBlocks))).getD b 0
  := by
  rw [fileMemory, fileBlocks, getElem?_flatMap_range (fun _ _ => hlen _ _) hu hb,
    List.getD_eq_getElem?_getD]
  have hsome := List.getElem?_eq_getElem (l := block (W (u / layerBlocks)
    (blockMatrix (u % layerBlocks)) (blockRow h (u % layerBlocks)))
    (blockGroup (u % layerBlocks))) (i := b) (by rw [hlen]; exact hb)
  rw [hsome, Option.getD_some, Option.getD_some]

/-- Past the last block. -/
theorem fileMemory_beyond {h : Fin 2} {W : ℕ → LayerWeights}
    {block : (ℕ → ℚ) → ℕ → List (BitVec 8)} {nLayers k u b : ℕ}
    (hlen : ∀ w g, (block w g).length = k) (hu : nLayers * layerBlocks ≤ u)
    (beyond : ℕ → BitVec 8) :
  fileMemory (fileBlocks h W block nLayers) beyond (u * k + b) = beyond (u * k + b)
  := by
  have hfile : (fileBlocks h W block nLayers).length ≤ u * k + b := by
    rw [fileBlocks, length_flatMap_range fun _ _ => hlen _ _]
    apply Nat.le_trans (Nat.mul_le_mul_right k hu) (Nat.le_add_right _ _)
  rw [fileMemory, List.getElem?_eq_none hfile, Option.getD_none]

/-! ### The fetched block -/

/-- The bits of an exported pack are those of its block. -/
theorem exportedPack_getLsbD (w : ℕ → ℚ) (g : ℕ) {i : ℕ} (hi : i < 128) :
  (exportedPack w g).getLsbD i = ((weightBlock w g).getD (i / 8) 0).getLsbD (i % 8)
  := by
  have hbyte : (weightBlock w g)[i / 8]? = some (rtnPacked grp w (g * 16 + i / 8)) := by
    rw [weightBlock, List.getElem?_map, List.getElem?_range (by omega), Option.map_some]
  rw [exportedPack, getLsbD_ofBits_of_lt _ hi, List.getD_eq_getElem?_getD, hbyte,
    Option.getD_some]

/-- The block of its layer whose weights the kernel fetches for a group of a column. -/
def fetchedBlock (m : LayerMatrix) (n kg : ℕ) : ℕ := 2 * m.wgtBase + (n * m.groups + kg)

/-- The block of its layer whose metadata the kernel fetches for a group of a column. -/
def fetchedMetaBlock (m : LayerMatrix) (n kg : ℕ) : ℕ := 16 * m.metaBase + (n * m.groups + kg)

section Fetched

variable {W : ℕ → LayerWeights} {nLayers layer n kg : ℕ} {m : LayerMatrix} {l : Launch}
  (wgtBeyond metaBeyond : Fin 2 → ℕ → BitVec 8)

/-- A multiplication sees the files from the manifest's offset and its own base on. -/
theorem gemmPorts_exportedPorts (hwgt : l.wgtOffset = (manifestOffsets W layer).wgtAxi)
    (hmeta : l.metaOffset = (manifestOffsets W layer).metaAxi) :
  l.gemmPorts (exportedPorts W nLayers wgtBeyond metaBeyond) m
    = (WeightPorts.ofBytes
        (fun h => fileMemory (fileBlocks h W weightBlock nLayers) (wgtBeyond h))
        fun h => fileMemory (fileBlocks h W metaBlock nLayers) (metaBeyond h)).advance
      (layer * 76800 + m.wgtBase) (layer * 9600 + m.metaBase)
  := by
  rw [manifestOffsets_eq] at hwgt hmeta
  rw [Launch.gemmPorts, WeightPorts.advance_advance, hwgt, hmeta, exportedPorts]
  simp only [weightsFile_eq_blocks, metaFile_eq_blocks]

/-- The bits of the pack that the kernel fetches. -/
theorem fetchPack_fetchedBlock (hwgt : l.wgtOffset = (manifestOffsets W layer).wgtAxi)
    (hmeta : l.metaOffset = (manifestOffsets W layer).metaAxi) {i : ℕ} (hi : i < 128) :
  ((l.gemmPorts (exportedPorts W nLayers wgtBeyond metaBeyond) m).fetchPack m.groups n kg).getLsbD i
    = (fileMemory (fileBlocks (columnHalf n) W weightBlock nLayers) (wgtBeyond (columnHalf n))
        ((layer * layerBlocks + fetchedBlock m n kg) * 16 + i / 8)).getLsbD (i % 8)
  := by
  have hbyte : 32 * (layer * 76800 + m.wgtBase) + 16 * (n * m.groups + kg) + i / 8
      = (layer * layerBlocks + fetchedBlock m n kg) * 16 + i / 8 := by
    rw [layerBlocks, fetchedBlock]
    omega
  rw [gemmPorts_exportedPorts wgtBeyond metaBeyond hwgt hmeta, fetchPack_getLsbD _ _ _ _ _ _ _ hi,
    hbyte]

/-- The metadata that the kernel fetches. -/
theorem fetchMeta_fetchedMetaBlock (hwgt : l.wgtOffset = (manifestOffsets W layer).wgtAxi)
    (hmeta : l.metaOffset = (manifestOffsets W layer).metaAxi) :
  (l.gemmPorts (exportedPorts W nLayers wgtBeyond metaBeyond) m).fetchMeta m.groups n kg
    = (fileMemory (fileBlocks (columnHalf n) W metaBlock nLayers) (metaBeyond (columnHalf n))
        ((layer * layerBlocks + fetchedMetaBlock m n kg) * 2 + 0),
      fileMemory (fileBlocks (columnHalf n) W metaBlock nLayers) (metaBeyond (columnHalf n))
        ((layer * layerBlocks + fetchedMetaBlock m n kg) * 2 + 1))
  := by
  have hscale : 32 * (layer * 9600 + m.metaBase) + 2 * (n * m.groups + kg)
      = (layer * layerBlocks + fetchedMetaBlock m n kg) * 2 + 0 := by
    rw [layerBlocks, fetchedMetaBlock]
    omega
  have hzero : 32 * (layer * 9600 + m.metaBase) + 2 * (n * m.groups + kg) + 1
      = (layer * layerBlocks + fetchedMetaBlock m n kg) * 2 + 1 := by
    rw [layerBlocks, fetchedMetaBlock]
    omega
  rw [gemmPorts_exportedPorts wgtBeyond metaBeyond hwgt hmeta, fetchMeta_eq, hzero, hscale]

end Fetched

/-- A block of layer `layer`, within the files. -/
theorem layerBlock_lt {nLayers layer x : ℕ} (hlayer : layer < nLayers) (hx : x < layerBlocks) :
  layer * layerBlocks + x < nLayers * layerBlocks
  := by
  have hle : (layer + 1) * layerBlocks ≤ nLayers * layerBlocks :=
    Nat.mul_le_mul_right layerBlocks hlayer
  rw [Nat.add_mul] at hle
  omega

section WithinLayer

variable {h : Fin 2} {W : ℕ → LayerWeights} {block : (ℕ → ℚ) → ℕ → List (BitVec 8)}
  {nLayers layer k x b : ℕ}

/-- The `b`-th byte of block `x` of a layer. -/
theorem fileMemory_layerBlock (hlen : ∀ w g, (block w g).length = k) (hlayer : layer < nLayers)
    (hx : x < layerBlocks) (hb : b < k) (beyond : ℕ → BitVec 8) :
  fileMemory (fileBlocks h W block nLayers) beyond ((layer * layerBlocks + x) * k + b)
    = (block (W layer (blockMatrix x) (blockRow h x)) (blockGroup x)).getD b 0
  := by
  rw [fileMemory_block hlen (layerBlock_lt hlayer hx) hb, mul_add_div_of_lt hx,
    Nat.mul_add_mod_of_lt hx]

end WithinLayer

/-! ### Agreement -/

/-- What is fetched is what was exported, if it is the block of the group. -/
theorem fetchesExported_of_fetchedBlock {m : LayerMatrix} {n kg : ℕ} (layer : ℕ)
    (hlt : fetchedBlock m n kg < layerBlocks)
    (hmeta : fetchedMetaBlock m n kg = fetchedBlock m n kg)
    (hmatrix : blockMatrix (fetchedBlock m n kg) = m)
    (hrow : blockRow (columnHalf n) (fetchedBlock m n kg) = n)
    (hgroup : blockGroup (fetchedBlock m n kg) = kg) :
  FetchesExported m layer n kg
  := by
  intro W nLayers wgtBeyond metaBeyond l hlayer hwgtOffset hmetaOffset
  constructor
  · apply BitVec.eq_of_getLsbD_eq
    intro i hi
    rw [fetchPack_fetchedBlock wgtBeyond metaBeyond hwgtOffset hmetaOffset hi,
      fileMemory_layerBlock length_weightBlock hlayer hlt (by omega), hmatrix, hrow, hgroup,
      exportedPack_getLsbD _ _ hi]
  · rw [fetchMeta_fetchedMetaBlock wgtBeyond metaBeyond hwgtOffset hmetaOffset, hmeta,
      fileMemory_layerBlock length_metaBlock hlayer hlt (by decide),
      fileMemory_layerBlock length_metaBlock hlayer hlt (by decide), hmatrix, hrow, hgroup]
    rfl

/-- Weights that are one in one group of one row and zero elsewhere. -/
def pointWeights (m : LayerMatrix) (n kg : ℕ) : LayerWeights := fun m' row column =>
  if m' = m ∧ row = n ∧ column / grp = kg then 1 else 0

/-- The lowest bit of a block shows whether its first weight is one. -/
theorem weightBlock_pointWeights (m m' : LayerMatrix) (n kg row g : ℕ) :
  ((weightBlock (pointWeights m n kg m' row) g).getD (0 / 8) 0).getLsbD (0 % 8)
    = decide (m' = m ∧ row = n ∧ g = kg)
  := by
  have hlow : ∀ a b : BitVec 8,
      ((a &&& 0x0F) ||| ((b &&& 0x0F) <<< 4)).getLsbD 0 = a.getLsbD 0 := by
    intro a b
    simp
  have hfirst : (weightBlock (pointWeights m n kg m' row) g).getD (0 / 8) 0
      = rtnPacked grp (pointWeights m n kg m' row) (g * 16) := rfl
  have hgroup : 2 * (g * 16) / grp = g := by
    change 2 * (g * 16) / 32 = g
    omega
  rw [hfirst, rtnPacked, hlow]
  by_cases hpoint : m' = m ∧ row = n ∧ g = kg
  · have hone : rtnStored grp (pointWeights m n kg m' row) (2 * (g * 16)) = 15 := by
      apply rtnStored_one (by decide)
      intro i hi
      change i < 32 at hi
      rw [hgroup, pointWeights, if_pos]
      refine ⟨hpoint.1, hpoint.2.1, ?_⟩
      rw [← hpoint.2.2]
      change (g * 32 + i) / 32 = g
      omega
    rw [hone, decide_eq_true hpoint]
    rfl
  · have hzero : rtnStored grp (pointWeights m n kg m' row) (2 * (g * 16)) = 8 := by
      apply rtnStored_zero
      rw [pointWeights, hgroup, if_neg hpoint]
    rw [hzero, decide_eq_false hpoint]
    rfl

/-- A launch with the offsets of a layer. -/
def layerLaunch (layer : ℕ) : Launch where
  actPing := .ping
  actPong := .pong
  actOut := .pong
  wgtOffset := layer * 76800
  metaOffset := layer * 9600
  seqLen := 1
  kvLen := 1
  posStart := 0
  execMode := execModeTtftDecode
  tokenTileOffset := 0
  tokenTileSize := 1
  runLmhead := 0
  layerId := layer
  usePing := 1

/-- What is fetched is what was exported only if it is the block of the group. -/
theorem fetchedBlock_of_fetchesExported {m : LayerMatrix} {layer n kg : ℕ}
    (hfetches : FetchesExported m layer n kg) :
  blockMatrix (fetchedBlock m n kg) = m ∧ blockRow (columnHalf n) (fetchedBlock m n kg) = n
    ∧ blockGroup (fetchedBlock m n kg) = kg
  := by
  let W : ℕ → LayerWeights := fun _ => pointWeights m n kg
  have hoffsets := manifestOffsets_eq W layer
  have hwgt : (layerLaunch layer).wgtOffset = (manifestOffsets W layer).wgtAxi := by
    rw [hoffsets]
    rfl
  have hmeta : (layerLaunch layer).metaOffset = (manifestOffsets W layer).metaAxi := by
    rw [hoffsets]
    rfl
  have hpack := (hfetches W (layer + 1) (fun _ _ => 0) (fun _ _ => 0) (layerLaunch layer)
    (Nat.lt_succ_self layer) hwgt hmeta).1
  have hbit := congrArg (fun v => v.getLsbD 0) hpack
  -- the first weight of the exported group is one
  have hexported : (exportedPack (W layer m n) kg).getLsbD 0 = true := by
    rw [exportedPack_getLsbD _ _ (by decide), weightBlock_pointWeights]
    simp
  simp only [hexported, fetchPack_fetchedBlock _ _ hwgt hmeta (show 0 < 128 by decide)] at hbit
  rcases Nat.lt_or_ge (fetchedBlock m n kg) layerBlocks with hlt | hge
  · rw [fileMemory_layerBlock length_weightBlock (Nat.lt_succ_self layer) hlt (by decide),
      weightBlock_pointWeights] at hbit
    apply of_decide_eq_true hbit
  · -- the memory after the files holds zeros
    have hbeyond : (layer + 1) * layerBlocks ≤ layer * layerBlocks + fetchedBlock m n kg := by
      rw [Nat.add_mul]
      omega
    rw [fileMemory_beyond length_weightBlock hbeyond] at hbit
    simp at hbit

/-- Only the even columns in the first half of the rows of the first matrix have their block
where the kernel fetches it. -/
theorem fetchedBlock_iff {m : LayerMatrix} {n kg : ℕ} (hn : n < m.outCols) (hkg : kg < m.groups) :
  (blockMatrix (fetchedBlock m n kg) = m ∧ blockRow (columnHalf n) (fetchedBlock m n kg) = n
      ∧ blockGroup (fetchedBlock m n kg) = kg)
    ↔ m = .qkv ∧ n % 2 = 0 ∧ n < 800
  := by
  have hhalf : (columnHalf n : ℕ) = n % 2 := rfl
  constructor
  · rintro ⟨hmatrix, hrow, -⟩
    have hbase := blockBase_blockMatrix_le (fetchedBlock m n kg)
    simp only [blockRow, hmatrix, hhalf] at hrow hbase
    cases m with
    | qkv =>
        change kg < 30 at hkg
        change n % 2 * 800 + (0 + (n * 30 + kg) - 0) / 30 = n at hrow
        have hlt := blockMatrix_eq_qkv_iff.mp hmatrix
        change 0 + (n * 30 + kg) < 24000 at hlt
        exact ⟨rfl, by omega, by omega⟩
    | o =>
        change kg < 30 at hkg
        change 24000 ≤ 12000 + (n * 30 + kg) at hbase
        change n % 2 * 480 + (12000 + (n * 30 + kg) - 24000) / 30 = n at hrow
        omega
    | gateUp =>
        change kg < 30 at hkg
        change 38400 ≤ 19200 + (n * 30 + kg) at hbase
        change n % 2 * 2560 + (19200 + (n * 30 + kg) - 38400) / 30 = n at hrow
        omega
    | down =>
        change kg < 80 at hkg
        change 115200 ≤ 57600 + (n * 80 + kg) at hbase
        change n % 2 * 480 + (57600 + (n * 80 + kg) - 115200) / 80 = n at hrow
        omega
  · rintro ⟨rfl, heven, hfirst⟩
    change kg < 30 at hkg
    have hmatrix : blockMatrix (fetchedBlock .qkv n kg) = .qkv := by
      apply blockMatrix_eq_qkv_iff.mpr
      change 0 + (n * 30 + kg) < 24000
      omega
    refine ⟨hmatrix, ?_, ?_⟩
    · simp only [blockRow, hmatrix, hhalf, heven]
      change 0 * 800 + (0 + (n * 30 + kg) - 0) / 30 = n
      omega
    · simp only [blockGroup, hmatrix]
      change (0 + (n * 30 + kg) - 0) % 30 = kg
      omega

/-- The kernel fetches what was exported for an even column in the first half of `qkv`, and for
no other column. -/
theorem fetchesExported_iff {m : LayerMatrix} {n kg : ℕ} (layer : ℕ) (hn : n < m.outCols)
    (hkg : kg < m.groups) :
  FetchesExported m layer n kg ↔ m = .qkv ∧ n % 2 = 0 ∧ n < 800
  := by
  rw [← fetchedBlock_iff hn hkg]
  constructor
  · apply fetchedBlock_of_fetchesExported
  · intro hblock
    obtain ⟨rfl, -, hlt⟩ := (fetchedBlock_iff hn hkg).mp hblock
    obtain ⟨hmatrix, hrow, hgroup⟩ := hblock
    apply fetchesExported_of_fetchedBlock layer _ rfl hmatrix hrow hgroup
    change kg < 30 at hkg
    change 0 + (n * 30 + kg) < 153600
    omega

theorem fetchesExported_qkv_zero :
  FetchesExported .qkv 0 0 0
  := (fetchesExported_iff 0 (by decide) (by decide)).mpr ⟨rfl, rfl, by decide⟩

/-- The pack fetched for column 1 of `qkv` is that of row 801. -/
theorem not_fetchesExported_qkv_one :
  ¬ FetchesExported .qkv 0 1 0
  := by
  intro hfetches
  have hrow := (fetchedBlock_of_fetchesExported hfetches).2.1
  have hother : blockRow (columnHalf 1) (fetchedBlock .qkv 1 0) = 801 := by decide
  rw [hother] at hrow
  contradiction

end Kv260
