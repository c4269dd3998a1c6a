import Mathlib.Algebra.Order.BigOperators.Group.Finset
import Mathlib.Algebra.Order.Ring.Int
import SmolVlm2Kv260.Kernel.Bridge
import SmolVlm2Kv260.Kernel.Vit

/-!
# Encoding an image

`encode_image` launches the vision kernel three times and the connector once, each launch on the
buffer the one before has written.  The patch embedding writes lanes of 32 bits, and the next
launch reads the same buffer as bytes: it takes the bytes of the first quarter of the buffer for
channels, where the third launch reads the lanes that the second one wrote.
-/

set_option autoImplicit false

namespace Kv260

open Blocks Memory

/-! ### The launches -/

/-- `VisionOffsets`. -/
structure VisionOffsets where
  patchWgtAxi : ℤ := 0
  patchMetaAxi : ℤ := 0
  qkvWgtAxi : ℤ := 0
  qkvMetaAxi : ℤ := 0
  attnWgtAxi : ℤ := 0
  attnMetaAxi : ℤ := 0
  connectorWgtAxi : ℤ := 0
  connectorMetaAxi : ℤ := 0
  deriving DecidableEq

/-- The buffers of the runner that `encode_image` works on, and the shuffle buffer of the
connector. -/
structure VisionBuffers where
  vitAct : ℕ → AXI256
  vitHidden : ℕ → AXI256
  vitTmp : ℕ → AXI256
  visionWgt : ℕ → AXI256
  visionMeta : ℕ → AXI256
  connectorWgt : ℕ → AXI256
  connectorMeta : ℕ → AXI256
  shuffleBuf : ℕ → AXI256
  imageTokens : ℕ → AXI256

namespace VisionBuffers

variable (b : VisionBuffers) (offsets : VisionOffsets)

/-- The launch `patch`.  The offsets of a manifest are not negative. -/
def patch : VisionBuffers :=
  { b with
    vitHidden := smolvlm2VitPrefillKernel b.vitAct b.visionWgt b.visionMeta b.vitHidden .vitPatch
      vitTokens vitC vitC offsets.patchWgtAxi.toNat offsets.patchMetaAxi.toNat }

/-- The launch `qkv`. -/
def qkv : VisionBuffers :=
  { b with
    vitTmp := smolvlm2VitPrefillKernel b.vitHidden b.visionWgt b.visionMeta b.vitTmp .vitQkv
      vitTokens vitC (vitC * 3) offsets.qkvWgtAxi.toNat offsets.qkvMetaAxi.toNat }

/-- The launch `attn`. -/
def attn : VisionBuffers :=
  { b with
    vitHidden := smolvlm2VitPrefillKernel b.vitTmp b.visionWgt b.visionMeta b.vitHidden .vitAttn
      vitTokens (vitC * 3) vitC offsets.attnWgtAxi.toNat offsets.attnMetaAxi.toNat }

/-- The launch `conn_run`. -/
def connRun : VisionBuffers :=
  { b with
    shuffleBuf := pixelShuffle4x b.vitHidden b.shuffleBuf
    imageTokens := smolvlm2ConnectorKernel b.vitHidden b.connectorWgt b.connectorMeta b.shuffleBuf
      b.imageTokens true offsets.connectorWgtAxi.toNat offsets.connectorMetaAxi.toNat }

/-- `encode_image`. -/
def encodeImage : VisionBuffers :=
  (((b.patch offsets).qkv offsets).attn offsets).connRun offsets

end VisionBuffers

/-! ### What the launches read and write -/

section Reads

variable (b : VisionBuffers) (offsets : VisionOffsets)

/-- What the patch embedding has written for a token and a channel. -/
def patchOutput (t k : ℕ) : ℤ := axiReadI32Linear (b.patch offsets).vitHidden (t * vitC + k)

/-- The activation that the launch after it reads for a token and a channel. -/
def qkvActivation (t k : ℕ) : ℤ := axiReadI8Linear (b.patch offsets).vitHidden (t * vitC + k)

/-- The result of the second launch for a token and a column. -/
def qkvOutput (t col : ℕ) : ℤ :=
  unifiedElem (b.patch offsets).vitHidden (fun i => b.visionWgt (offsets.qkvWgtAxi.toNat + i))
    (fun i => b.visionMeta (offsets.qkvMetaAxi.toNat + i)) vitC vitQkv t col

/-- What the third launch reads for a token and a column. -/
def attnInput (t col : ℕ) : ℤ :=
  axiReadI32 ((b.patch offsets).qkv offsets).vitTmp (t * vitQkv + col)

/-- The result of the second launch is made of the activations it reads. -/
theorem qkvOutput_eq (t col : ℕ) :
  qkvOutput b offsets t col
    = apInt 32 (∑ k ∈ Finset.range vitC, pairedProduct
        (columnWeight (fun i => b.visionWgt (offsets.qkvWgtAxi.toNat + i))
          (fun i => b.visionMeta (offsets.qkvMetaAxi.toNat + i)) vitC vitQkv k) col
        (qkvActivation b offsets t k))
  := by
  rfl

theorem patchOutput_eq {t k : ℕ} (ht : t < vitTokens) (hk : k < vitC) :
  patchOutput b offsets t k
    = unifiedElem b.vitAct (fun i => b.visionWgt (offsets.patchWgtAxi.toNat + i))
        (fun i => b.visionMeta (offsets.patchMetaAxi.toNat + i)) vitC vitC t k
  := by
  have hshape : supportedModeShape .vitPatch vitTokens vitC vitC := .inl ⟨rfl, rfl, rfl, rfl⟩
  simp only [patchOutput, VisionBuffers.patch, smolvlm2VitPrefillKernel_gemm _ _ _ _ _ _ hshape]
  apply (unifiedGemm_refines _ _ _ vitTokens vitC vitC (by decide) _).1 t ht k hk

/-- The third launch reads what the second one has written. -/
theorem attnInput_eq {t col : ℕ} (ht : t < vitTokens) (hcol : col < vitQkv) :
  attnInput b offsets t col = qkvOutput b offsets t col
  := by
  have hshape : supportedModeShape .vitQkv vitTokens vitC (vitC * 3) :=
    .inr (.inl ⟨rfl, rfl, rfl, rfl⟩)
  simp only [attnInput, VisionBuffers.qkv, smolvlm2VitPrefillKernel_gemm _ _ _ _ _ _ hshape]
  apply (unifiedGemm_refines _ _ _ vitTokens vitC vitQkv (by decide) _).1 t ht col hcol

/-- The third launch depends on these reads only. -/
theorem attn_congr {b b' : VisionBuffers} (hhidden : b.vitHidden = b'.vitHidden)
    (hread : ∀ t < vitTokens, ∀ col < vitQkv,
      axiReadI32 b.vitTmp (t * vitQkv + col) = axiReadI32 b'.vitTmp (t * vitQkv + col)) :
  (b.attn offsets).vitHidden = (b'.attn offsets).vitHidden
  := by
  have hlaunch : ∀ b : VisionBuffers,
      (b.attn offsets).vitHidden = vitAttentionFull b.vitTmp b.vitHidden := by
    intro b
    simp only [VisionBuffers.attn, smolvlm2VitPrefillKernel_attn]
  rw [hlaunch, hlaunch, hhidden]
  apply vitAttentionFull_congr hread

end Reads

/-! ### Bytes of lanes -/

/-- Byte `j` of an `INT32`. -/
def byteOf (v : ℤ) (j : ℕ) : ℤ := ((BitVec.ofInt 32 v).extractLsb' (j * 8) 8).toInt

/-- Byte `i` of a buffer is a byte of lane `i / 4`. -/
theorem axiReadI8Linear_eq_byteOf (base : ℕ → AXI256) (i : ℕ) :
  axiReadI8Linear base i = byteOf (axiReadI32Linear base (i / 4)) (i % 4)
  := by
  have hword : i / 4 / 8 = i / 32 := Nat.div_div_eq_div_mul i 4 8
  have hbyte : i / 4 % 8 * 32 + i % 4 * 8 = i % 32 * 8 := by omega
  rw [byteOf, axiReadI32Linear, axiReadI8Linear, BitVec.ofInt_toInt, hword]
  congr 1
  apply BitVec.eq_of_getLsbD_eq
  intro j hj
  have hlane : i % 4 * 8 + j < 32 := by omega
  rw [getLsbD_extractLsb'_of_lt _ _ hj, getLsbD_extractLsb'_of_lt _ _ hj,
    getLsbD_extractLsb'_of_lt _ _ hlane, ← Nat.add_assoc, hbyte]

/-- The token and the channel whose result holds the byte that is read for `(t, k)`. -/
theorem qkvActivation_eq (b : VisionBuffers) (offsets : VisionOffsets) (t k : ℕ) :
  qkvActivation b offsets t k
    = byteOf (patchOutput b offsets (t / 4) (t % 4 * 192 + k / 4)) (k % 4)
  := by
  have hlane : (t * vitC + k) / 4 = t / 4 * vitC + (t % 4 * 192 + k / 4) := by
    change (t * 768 + k) / 4 = t / 4 * 768 + (t % 4 * 192 + k / 4)
    omega
  have hbyte : (t * vitC + k) % 4 = k % 4 := by
    change (t * 768 + k) % 4 = k % 4
    omega
  rw [qkvActivation, axiReadI8Linear_eq_byteOf, hlane, hbyte, patchOutput]

/-! ### Whether the byte follows from the result -/

/-- The activation that is read for a token and a channel is this function of what the patch
embedding has written for them. -/
def ReadsThrough (f : ℤ → ℤ) (t k : ℕ) : Prop :=
  ∀ (offsets : VisionOffsets) (b : VisionBuffers),
    qkvActivation b offsets t k = f (patchOutput b offsets t k)

/-- The activation that is read for a token and a channel is what the patch embedding has written
for them, requantised as the connector and the bridge requantise their inputs. -/
def ReadsRequantised : ℕ → ℕ → Prop := ReadsThrough fun v => (requantInt8 v).toInt

/-- The results in the even columns are sums of products of nine bits. -/
theorem unifiedElem_even (act wgt scales : ℕ → AXI256) {K N n : ℕ} (hn : n % 2 = 0)
    (hK : K ≤ 768) (t : ℕ) :
  0 ≤ unifiedElem act wgt scales K N t n ∧ unifiedElem act wgt scales K N t n < 2 ^ 24
  := by
  have hprod : ∀ k, 0 ≤ pairedProduct (columnWeight wgt scales K N k) n
        (axiReadI8Linear act (t * K + k))
      ∧ pairedProduct (columnWeight wgt scales K N k) n (axiReadI8Linear act (t * K + k))
        ≤ 511 := by
    intro k
    rw [pairedProduct, if_pos hn, packMul2Int8_fst]
    omega
  have hnonneg := Finset.sum_nonneg fun k (_ : k ∈ Finset.range K) => (hprod k).1
  have hle := Finset.sum_le_card_nsmul (Finset.range K) _ 511 fun k _ => (hprod k).2
  rw [Finset.card_range, nsmul_eq_mul] at hle
  rw [unifiedElem, apInt_of_mem (by decide)] <;> omega

/-- So their last bytes are zero. -/
theorem byteOf_three {v : ℤ} (hnonneg : 0 ≤ v) (hlt : v < 2 ^ 24) :
  byteOf v 3 = 0
  := by
  have hbits : (BitVec.ofInt 32 v).extractLsb' (3 * 8) 8 = 0#8 := by
    apply BitVec.eq_of_toNat_eq
    rw [BitVec.extractLsb'_toNat, BitVec.toNat_ofInt, Nat.shiftRight_eq_div_pow]
    change _ = 0
    omega
  rw [byteOf, hbits]
  rfl

theorem byteOf_zero (j : ℕ) :
  byteOf 0 j = 0
  := by
  simp [byteOf]

/-- So is the activation that is read for every eighth channel. -/
theorem qkvActivation_eq_zero (b : VisionBuffers) (offsets : VisionOffsets) {t k : ℕ}
    (ht : t < vitTokens) (hk : k < vitC) (hlast : k % 8 = 3) :
  qkvActivation b offsets t k = 0
  := by
  have ht' : t / 4 < vitTokens := Nat.lt_of_le_of_lt (Nat.div_le_self _ _) ht
  have hk' : t % 4 * 192 + k / 4 < vitC := by
    have hlt : k < 768 := hk
    change t % 4 * 192 + k / 4 < 768
    omega
  have hbyte : k % 4 = 3 := by omega
  have heven : (t % 4 * 192 + k / 4) % 2 = 0 := by omega
  rw [qkvActivation_eq, hbyte, patchOutput_eq b offsets ht' hk']
  obtain ⟨hnonneg, hlt⟩ := unifiedElem_even b.vitAct _ _ heven (Nat.le_refl _) (t / 4)
  apply byteOf_three hnonneg hlt

/-! ### Inputs that only one result depends on -/

/-- Activations that are zero except the first `count` of a row, and weights that are zero
except those of a column. -/
structure Probe where
  row : ℕ
  col : ℕ
  count : ℕ
  act : BitVec 8
  weight : ℤ
  /-- The nibbles of the weights of the column. -/
  word : AXI256
  col_lt : col < vitC
  count_le : count ≤ vitC
  word_eq : ∀ i < 32, dequantW4Group (word.extractLsb' 0 128) 16 0 i = weight
    ∧ dequantW4Group (word.extractLsb' 128 128) 16 0 i = weight
  /-- The products do not reach the column that shares the multiplications. -/
  pair_eq : col % 2 = 0 → (packMul2Int8 weight 0 act.toInt).2 = 0

namespace Probe

variable (p : Probe)

/-- The weights of a row of the matrix. -/
def weights (n : ℕ) : ℤ := if n = p.col then p.weight else 0

/-- The words of weights. -/
def wgt : ℕ → AXI256 := fun j => if j / 12 = p.col then p.word else 0

/-- The activations. -/
def acts : ℕ → AXI256 :=
  axiWord fun i => if i / vitC = p.row ∧ i % vitC < p.count then p.act else 0

/-- With scales of 16 and zero points of 0, a weight is its nibble. -/
def scales : ℕ → AXI256 := fun _ =>
  0x0010001000100010001000100010001000100010001000100010001000100010

/-- The buffers before the launches. -/
def buffers : VisionBuffers where
  vitAct := p.acts
  vitHidden := fun _ => 0
  vitTmp := fun _ => 0
  visionWgt := p.wgt
  visionMeta := scales
  connectorWgt := fun _ => 0
  connectorMeta := fun _ => 0
  shuffleBuf := fun _ => 0
  imageTokens := fun _ => 0

/-- The result that is not zero. -/
def result : ℤ := apInt 32 (p.count * pairedProduct p.weights p.col p.act.toInt)

/-- The same weights without activations. -/
def silent : Probe := { p with count := 0, count_le := Nat.zero_le _ }

theorem unifiedMeta_scales (i : ℕ) :
  (unifiedMeta scales i).1.toInt = 16 ∧ (unifiedMeta scales i).2.toInt = 0
  := by
  have hlanes : ∀ s < 16,
      ((scales 0).extractLsb' (s * 16) 8).toInt = 16
        ∧ ((scales 0).extractLsb' (s * 16 + 8) 8).toInt = 0 := by
    decide
  apply hlanes (i % 16) (Nat.mod_lt _ (by decide))

theorem unifiedWeight_eq {n kg i : ℕ} (hkg : kg < 24) (hi : i < 32) :
  unifiedWeight p.wgt scales 24 n kg i = p.weights n
  := by
  have hcol : (n * 24 + kg) / 2 / 12 = n := by omega
  have hzero : ∀ i < 32, dequantW4Group ((0 : AXI256).extractLsb' 0 128) 16 0 i = 0
      ∧ dequantW4Group ((0 : AXI256).extractLsb' 128 128) 16 0 i = 0 := by
    decide
  obtain ⟨hscale, hzp⟩ := unifiedMeta_scales (n * 24 + kg)
  simp only [unifiedWeight, hscale, hzp, unifiedPack, wgt, hcol, weights]
  split_ifs with heven hn
  · apply (p.word_eq i hi).1
  · apply (hzero i hi).1
  · apply (p.word_eq i hi).2
  · apply (hzero i hi).2

theorem columnWeight_eq {k : ℕ} (hk : k < vitC) :
  columnWeight p.wgt scales vitC vitC k = p.weights
  := by
  have hk' : k < 768 := hk
  have hcol : p.col < 768 := p.col_lt
  funext n
  rw [columnWeight]
  split_ifs with hn
  · apply p.unifiedWeight_eq
    · change k / 32 < 24
      omega
    · apply Nat.mod_lt _ (by decide)
  · have hne : n ≠ p.col := by
      rintro rfl
      apply hn p.col_lt
    rw [weights, if_neg hne]

theorem act_eq {t i : ℕ} (hi : i < vitC) :
  axiReadI8Linear p.acts (t * vitC + i) = if t = p.row ∧ i < p.count then p.act.toInt else 0
  := by
  have hi' : i < 768 := hi
  have hdiv : (t * 768 + i) / 768 = t := by omega
  have hmod : (t * 768 + i) % 768 = i := by omega
  have hpos : 32 * ((t * 768 + i) / 32) + (t * 768 + i) % 32 = t * 768 + i := Nat.div_add_mod _ _
  rw [axiReadI8Linear, acts, extractLsb'_axiWord _ _ (Nat.mod_lt _ (by decide)), hpos, hdiv, hmod]
  split <;> rfl

/-- A product without an activation. -/
theorem pairedProduct_zero (weight : ℕ → ℤ) (n : ℕ) :
  pairedProduct weight n 0 = 0
  := by
  have hzero : ∀ lo hi : ℤ, packMul2Int8 lo hi 0 = (0, 0) := by
    intro lo hi
    rw [packMul2Int8, Int.mul_zero]
    decide
  rw [pairedProduct, hzero, hzero]
  split <;> rfl

theorem pairedProduct_of_ne {n : ℕ} (hn : n ≠ p.col) :
  pairedProduct p.weights n p.act.toInt = 0
  := by
  have hweight : p.weights n = 0 := if_neg hn
  rw [pairedProduct, hweight]
  split_ifs with heven
  · rw [packMul2Int8_fst, Int.zero_mul]
    rfl
  · rw [weights]
    split_ifs with hcol
    · apply p.pair_eq
      omega
    · rw [packMul2Int8, packedWeights]
      simp

/-- The results of the patch embedding. -/
theorem patchOutput_eq_result {t k : ℕ} (ht : t < vitTokens) (hk : k < vitC) :
  patchOutput p.buffers {} t k = if t = p.row ∧ k = p.col then p.result else 0
  := by
  have hterm : ∀ i ∈ Finset.range vitC,
      pairedProduct (columnWeight p.wgt scales vitC vitC i) k
          (axiReadI8Linear p.acts (t * vitC + i))
        = if i < p.count then
            if t = p.row ∧ k = p.col then pairedProduct p.weights p.col p.act.toInt else 0
          else 0 := by
    intro i hi
    have hi' := Finset.mem_range.mp hi
    rw [p.columnWeight_eq hi', p.act_eq hi']
    by_cases hrow : t = p.row
    · by_cases hcount : i < p.count
      · rw [if_pos ⟨hrow, hcount⟩, if_pos hcount]
        by_cases hcol : k = p.col
        · rw [if_pos ⟨hrow, hcol⟩, hcol]
        · rw [if_neg fun h => hcol h.2, p.pairedProduct_of_ne hcol]
      · rw [if_neg fun h => hcount h.2, if_neg hcount, pairedProduct_zero]
    · have hact : ¬ (t = p.row ∧ i < p.count) := fun h => hrow h.1
      have hcell : ¬ (t = p.row ∧ k = p.col) := fun h => hrow h.1
      rw [if_neg hact, if_neg hcell, pairedProduct_zero, ite_self]
  have hsum : ∑ i ∈ Finset.range vitC,
      pairedProduct (columnWeight p.wgt scales vitC vitC i) k
        (axiReadI8Linear p.acts (t * vitC + i))
        = p.count * if t = p.row ∧ k = p.col then pairedProduct p.weights p.col p.act.toInt
          else 0 := by
    rw [Finset.sum_congr rfl hterm, ← Finset.sum_subset (Finset.range_subset_range.mpr p.count_le)]
    · rw [Finset.sum_congr rfl fun i hi => if_pos (Finset.mem_range.mp hi), Finset.sum_const,
        Finset.card_range, nsmul_eq_mul]
    · intro i _ hi
      rw [if_neg fun h => hi (Finset.mem_range.mpr h)]
  rw [patchOutput_eq _ _ ht hk]
  change apInt 32 (∑ i ∈ Finset.range vitC,
    pairedProduct (columnWeight (fun i => p.wgt (0 + i)) (fun i => scales (0 + i)) vitC vitC i) k
      (axiReadI8Linear p.acts (t * vitC + i))) = _
  simp only [Nat.zero_add]
  rw [hsum]
  split_ifs
  · rfl
  · rw [mul_zero, apInt_succ_zero]

/-- The byte that is read of the result. -/
theorem qkvActivation_buffers {t k : ℕ} (ht : t < vitTokens) (hrow : p.row = t / 4)
    (hcol : p.col = t % 4 * 192 + k / 4) :
  qkvActivation p.buffers {} t k = byteOf p.result (k % 4)
  := by
  have hrow' : t / 4 < vitTokens := Nat.lt_of_le_of_lt (Nat.div_le_self _ _) ht
  have hcol' : t % 4 * 192 + k / 4 < vitC := hcol ▸ p.col_lt
  rw [qkvActivation_eq, p.patchOutput_eq_result hrow' hcol', if_pos ⟨hrow.symm, hcol.symm⟩]

/-- The result for a token and a channel that is read for others. -/
theorem patchOutput_buffers_zero {t k : ℕ} (ht : t < vitTokens) (hk : k < vitC)
    (hne : ¬ (t = 0 ∧ k = 0)) (hrow : p.row = t / 4) (hcol : p.col = t % 4 * 192 + k / 4) :
  patchOutput p.buffers {} t k = 0
  := by
  rw [p.patchOutput_eq_result ht hk, if_neg]
  rintro ⟨h₁, h₂⟩
  apply hne
  omega

/-- A byte that is read elsewhere and changes with the activations does not follow from the
result. -/
theorem not_readsThrough (f : ℤ → ℤ) {t k : ℕ} (ht : t < vitTokens) (hk : k < vitC)
    (hne : ¬ (t = 0 ∧ k = 0)) (hrow : p.row = t / 4) (hcol : p.col = t % 4 * 192 + k / 4)
    (hbyte : byteOf p.result (k % 4) ≠ 0) :
  ¬ ReadsThrough f t k
  := by
  intro hf
  have hsilent : p.silent.result = 0 := by
    rw [result, silent]
    simp only [Nat.cast_zero, zero_mul, apInt_succ_zero]
  have hloud := hf {} p.buffers
  have hquiet := hf {} p.silent.buffers
  rw [p.patchOutput_buffers_zero ht hk hne hrow hcol, p.qkvActivation_buffers ht hrow hcol]
    at hloud
  rw [p.silent.patchOutput_buffers_zero ht hk hne hrow hcol,
    p.silent.qkvActivation_buffers ht hrow hcol, hsilent, byteOf_zero] at hquiet
  apply hbyte
  rw [hloud, ← hquiet]

theorem result_even (h : p.col % 2 = 0) :
  p.result = apInt 32 (p.count * (p.weight * p.act.toInt % 512))
  := by
  rw [result, pairedProduct, if_pos h, packMul2Int8_fst, weights, if_pos rfl]

theorem result_odd (h : p.col % 2 = 1) :
  p.result = apInt 32 (p.count * (packMul2Int8 0 p.weight p.act.toInt).2)
  := by
  have hprev : p.weights (p.col - 1) = 0 := if_neg (by omega)
  have hself : p.weights p.col = p.weight := if_pos rfl
  rw [result, pairedProduct, if_neg (by omega), hprev, hself]

/-- Weights of one in a column. -/
def ones (row col : ℕ) (hcol : col < vitC) (act : BitVec 8)
    (hpair : col % 2 = 0 → (packMul2Int8 1 0 act.toInt).2 = 0) : Probe where
  row := row
  col := col
  count := 32
  act := act
  weight := 1
  word := 0x1111111111111111111111111111111111111111111111111111111111111111
  col_lt := hcol
  count_le := by decide
  word_eq := by decide
  pair_eq := hpair

/-- Weights of eight in a column. -/
def eights (row col count : ℕ) (hcol : col < vitC) (hcount : count ≤ vitC) : Probe where
  row := row
  col := col
  count := count
  act := 32
  weight := 8
  word := 0x8888888888888888888888888888888888888888888888888888888888888888
  col_lt := hcol
  count_le := hcount
  word_eq := by decide
  pair_eq _ := by decide

end Probe

/-- Away from the first byte and from the bytes that are always zero, some weights make the byte
depend on activations that the result does not depend on. -/
theorem not_readsThrough_of (f : ℤ → ℤ) {t k : ℕ} (ht : t < vitTokens) (hk : k < vitC)
    (hne : ¬ (t = 0 ∧ k = 0)) (hlast : k % 8 ≠ 3) :
  ¬ ReadsThrough f t k
  := by
  have hcol : t % 4 * 192 + k / 4 < vitC := by
    have hlt : k < 768 := hk
    change t % 4 * 192 + k / 4 < 768
    omega
  rcases Nat.lt_or_ge (k % 8) 4 with heven | hodd
  · have hpar : (t % 4 * 192 + k / 4) % 2 = 0 := by omega
    have hbyte : k % 4 = 0 ∨ k % 4 = 1 ∨ k % 4 = 2 := by omega
    rcases hbyte with hbyte | hbyte | hbyte
    · apply (Probe.ones (t / 4) _ hcol 1 fun _ => by decide).not_readsThrough f ht hk hne rfl rfl
      rw [Probe.result_even _ hpar, hbyte]
      change byteOf (apInt 32 (32 * (1 * (1 : BitVec 8).toInt % 512))) 0 ≠ 0
      decide
    · apply (Probe.eights (t / 4) _ 32 hcol (by decide)).not_readsThrough f ht hk hne rfl rfl
      rw [Probe.result_even _ hpar, hbyte]
      change byteOf (apInt 32 (32 * (8 * (32 : BitVec 8).toInt % 512))) 1 ≠ 0
      decide
    · apply (Probe.eights (t / 4) _ vitC hcol (by decide)).not_readsThrough f ht hk hne rfl rfl
      rw [Probe.result_even _ hpar, hbyte]
      change byteOf (apInt 32 (768 * (8 * (32 : BitVec 8).toInt % 512))) 2 ≠ 0
      decide
  · have hpar : (t % 4 * 192 + k / 4) % 2 = 1 := by omega
    apply (Probe.ones (t / 4) _ hcol (-1) fun _ => by omega).not_readsThrough f ht hk hne rfl rfl
    have hbytes : ∀ j < 4,
        byteOf (apInt 32 (32 * (packMul2Int8 0 1 (-1 : BitVec 8).toInt).2)) j ≠ 0 := by
      decide
    rw [Probe.result_odd _ hpar]
    apply hbytes _ (Nat.mod_lt _ (by decide))

/-- For the first token and channel the low byte of the result is read, not its second byte. -/
theorem not_readsRequantised_first :
  ¬ ReadsRequantised 0 0
  := by
  intro hreads
  have hrequant := hreads {} (Probe.ones 0 0 (by decide) 1 fun _ => by decide).buffers
  rw [Probe.qkvActivation_buffers _ (by decide) rfl rfl,
    Probe.patchOutput_eq_result _ (by decide) (by decide), if_pos ⟨rfl, rfl⟩,
    Probe.result_even _ rfl] at hrequant
  change byteOf (apInt 32 (32 * (1 * (1 : BitVec 8).toInt % 512))) 0
    = (requantInt8 (apInt 32 (32 * (1 * (1 : BitVec 8).toInt % 512)))).toInt at hrequant
  absurd hrequant
  decide

/-- Where the byte is always zero, the second byte of the result is not. -/
theorem not_readsRequantised_eighth {t k : ℕ} (ht : t < vitTokens) (hk : k < vitC)
    (hlast : k % 8 = 3) :
  ¬ ReadsRequantised t k
  := by
  intro hreads
  have hpar : k % 2 = 1 := by omega
  have hrequant := hreads {} (Probe.eights t k 32 hk (by decide)).buffers
  rw [qkvActivation_eq_zero _ _ ht hk hlast, Probe.patchOutput_eq_result _ ht hk,
    if_pos ⟨rfl, rfl⟩, Probe.result_odd _ hpar] at hrequant
  change 0 = (requantInt8 (apInt 32 (32 * (packMul2Int8 0 8 (32 : BitVec 8).toInt).2))).toInt
    at hrequant
  absurd hrequant
  decide

/-- For no token and channel does the launch after the patch embedding read the requantised
result of the embedding for them.  The launch after that one reads for every token and column the
result for them. -/
theorem not_readsRequantised (offsets : VisionOffsets) (b : VisionBuffers) :
  (∀ t < vitTokens, ∀ k < vitC, ¬ ReadsRequantised t k)
    ∧ ∀ t < vitTokens, ∀ col < vitQkv, attnInput b offsets t col = qkvOutput b offsets t col
  := by
  constructor
  · intro t ht k hk
    by_cases hfirst : t = 0 ∧ k = 0
    · obtain ⟨rfl, rfl⟩ := hfirst
      apply not_readsRequantised_first
    · by_cases hlast : k % 8 = 3
      · apply not_readsRequantised_eighth ht hk hlast
      · apply not_readsThrough_of _ ht hk hfirst hlast
  · intro t ht col hcol
    apply attnInput_eq b offsets ht hcol

/-- The second channel of the first token is read from the first lane: it is 32 where the result
for it is 0. -/
theorem not_readsRequantised_zero_one :
  qkvActivation (Probe.eights 0 0 32 (by decide) (by decide)).buffers {} 0 1 = 32
    ∧ patchOutput (Probe.eights 0 0 32 (by decide) (by decide)).buffers {} 0 1 = 0
    ∧ ¬ ReadsRequantised 0 1
  := by
  have hread : qkvActivation (Probe.eights 0 0 32 (by decide) (by decide)).buffers {} 0 1 = 32 := by
    rw [Probe.qkvActivation_buffers _ (by decide) rfl rfl, Probe.result_even _ rfl]
    change byteOf (apInt 32 (32 * (8 * (32 : BitVec 8).toInt % 512))) 1 = 32
    decide
  have hown : patchOutput (Probe.eights 0 0 32 (by decide) (by decide)).buffers {} 0 1 = 0 :=
    Probe.patchOutput_buffers_zero _ (by decide) (by decide) (by decide) rfl rfl
  refine ⟨hread, hown, fun hreads => ?_⟩
  have hrequant := hreads {} (Probe.eights 0 0 32 (by decide) (by decide)).buffers
  rw [hread, hown] at hrequant
  absurd hrequant
  decide

end Kv260
