import SmolVlm2Kv260.Kernel.ApproxMath
import SmolVlm2Kv260.Kernel.UnifiedGemm

/-!
# The vision kernels

`smolvlm2_vit_prefill_kernel` and `smolvlm2_connector_kernel` of `vit_kernel.cpp`: the mode and
the shape of a launch decide between the matrix multiplication and the attention, and the
connector shuffles the tokens of four by four patches into one and projects them.

The multiplication reads its input as bytes, and attention and shuffle read theirs as lanes of
32 bits.  What a launch reads and what it writes are in different buffers.
-/

set_option autoImplicit false

namespace Kv260

/-! ### Modes and shapes -/

inductive KernelMode where
  | llmDecoder
  | vitPatch
  | vitQkv
  | vitAttn
  | vitFfn
  | connector
  | lmHead
  | genericGemm
  deriving DecidableEq

/-- `is_supported_match_shape`. -/
def isSupportedMatchShape (M K N : ℕ) : Prop :=
  M = vitTokens ∧ K = vitC ∧ N = vitQkv
    ∨ M = vitTokens ∧ K = vitC ∧ N = vitFfnDim
    ∨ M = vitTokens ∧ K = vitFfnDim ∧ N = vitC
    ∨ M = imageTokens ∧ K = connectorIn ∧ N = connectorOut
    ∨ K = C ∧ N = nQkv
    ∨ K = C ∧ N = C
    ∨ K = C ∧ N = nFfnGateup
    ∨ K = ffnDim ∧ N = C
    ∨ M = 1 ∧ K = C ∧ N = 49280

instance (M K N : ℕ) : Decidable (isSupportedMatchShape M K N) :=
  inferInstanceAs (Decidable (_ ∨ _))

/-! ### Attention -/

/-- `axi_read_i32`. -/
def axiReadI32 (base : ℕ → AXI256) (idx : ℕ) : ℤ := axiReadI32Linear base idx

/-- `axi_write_i32`. -/
def axiWriteI32 (base : ℕ → AXI256) (idx : ℕ) (value : ℤ) : ℕ → AXI256 :=
  axiWriteI32Linear base idx value

/-- `vit_exp_approx`, whose argument is an `INT32`. -/
def vitExpApprox (x : ℤ) : ℤ := approxExpQ15 (apInt 32 x)

section Attention

variable (qkv : ℕ → AXI256)

/-- The score of the key of token `s` for the query of token `t`. -/
def vitScore (t h s : ℕ) : ℤ :=
  let dot := (List.range vitHeadDim).foldl (fun dot d =>
    let qIdx := t * vitQkv + h * vitHeadDim + d
    let kIdx := s * vitQkv + vitC + h * vitHeadDim + d
    apInt 43 (dot + axiReadI32 qkv qIdx * axiReadI32 qkv kIdx)) 0
  apInt 32 (dot >>> (3 : ℕ))

/-- The largest score. -/
def vitMaxScore (t h : ℕ) : ℤ :=
  (List.range vitTokens).foldl (fun maxScore s =>
    if maxScore < vitScore qkv t h s then vitScore qkv t h s else maxScore) (-2147483647)

/-- The weight of token `s`. -/
def vitProb (t h s : ℕ) : ℤ := vitExpApprox (vitScore qkv t h s - vitMaxScore qkv t h)

/-- The sum of the weights, or one when it is zero. -/
def vitDenom (t h : ℕ) : ℤ :=
  let denom := (List.range vitTokens).foldl (fun denom s => apInt 32 (denom + vitProb qkv t h s)) 0
  if denom = 0 then 1 else denom

/-- The weighted sum of dimension `d` of the values. -/
def vitAcc (t h d : ℕ) : ℤ :=
  (List.range vitTokens).foldl (fun acc s =>
    let vIdx := s * vitQkv + 2 * vitC + h * vitHeadDim + d
    apInt 43 (acc + vitProb qkv t h s * axiReadI32 qkv vIdx)) 0

/-- `vit_attention_full`. -/
def vitAttentionFull (out : ℕ → AXI256) : ℕ → AXI256 :=
  (List.range vitTokens).foldl (fun out t =>
    (List.range vitHeads).foldl (fun out h =>
      (List.range vitHeadDim).foldl (fun out d =>
        axiWriteI32 out (t * vitC + h * vitHeadDim + d)
          (apInt 32 ((vitAcc qkv t h d).tdiv (vitDenom qkv t h)))) out) out) out

end Attention

/-! ### The frame of the attention -/

section Frame

variable {qkv qkv' : ℕ → AXI256} (h : ∀ t < vitTokens, ∀ col < vitQkv,
  axiReadI32 qkv (t * vitQkv + col) = axiReadI32 qkv' (t * vitQkv + col))

include h

/-- Dimension `d` of head `head` in the part of a row that starts at column `base`. -/
theorem axiReadI32_congr {t head d base : ℕ} (ht : t < vitTokens) (hhead : head < vitHeads)
    (hdim : d < vitHeadDim) (hbase : base ≤ 2 * vitC) :
  axiReadI32 qkv (t * vitQkv + base + head * vitHeadDim + d)
    = axiReadI32 qkv' (t * vitQkv + base + head * vitHeadDim + d)
  := by
  have hcol : base + head * vitHeadDim + d < vitQkv := by
    have hhead' : head < 12 := hhead
    have hdim' : d < 64 := hdim
    have hbase' : base ≤ 2 * 768 := hbase
    change base + head * 64 + d < 768 * 3
    omega
  have hread := h t ht _ hcol
  simp only [← Nat.add_assoc] at hread
  exact hread

theorem vitScore_congr {t head s : ℕ} (ht : t < vitTokens) (hhead : head < vitHeads)
    (hs : s < vitTokens) :
  vitScore qkv t head s = vitScore qkv' t head s
  := by
  simp only [vitScore]
  rw [List.foldl_ext]
  intro dot d hdim
  have hlt := List.mem_range.mp hdim
  have hq := axiReadI32_congr h ht hhead hlt (Nat.zero_le _)
  have hk := axiReadI32_congr h hs hhead hlt (by decide : vitC ≤ 2 * vitC)
  rw [Nat.add_zero] at hq
  simp only [hq, hk]

theorem vitMaxScore_congr {t head : ℕ} (ht : t < vitTokens) (hhead : head < vitHeads) :
  vitMaxScore qkv t head = vitMaxScore qkv' t head
  := by
  simp only [vitMaxScore]
  apply List.foldl_ext
  intro maxScore s hs
  rw [vitScore_congr h ht hhead (List.mem_range.mp hs)]

theorem vitProb_congr {t head s : ℕ} (ht : t < vitTokens) (hhead : head < vitHeads)
    (hs : s < vitTokens) :
  vitProb qkv t head s = vitProb qkv' t head s
  := by
  rw [vitProb, vitProb, vitScore_congr h ht hhead hs, vitMaxScore_congr h ht hhead]

theorem vitDenom_congr {t head : ℕ} (ht : t < vitTokens) (hhead : head < vitHeads) :
  vitDenom qkv t head = vitDenom qkv' t head
  := by
  have hsum : (List.range vitTokens).foldl
      (fun denom s => apInt 32 (denom + vitProb qkv t head s)) 0
        = (List.range vitTokens).foldl
      (fun denom s => apInt 32 (denom + vitProb qkv' t head s)) 0 := by
    apply List.foldl_ext
    intro denom s hs
    rw [vitProb_congr h ht hhead (List.mem_range.mp hs)]
  rw [vitDenom, vitDenom, hsum]

theorem vitAcc_congr {t head d : ℕ} (ht : t < vitTokens) (hhead : head < vitHeads)
    (hdim : d < vitHeadDim) :
  vitAcc qkv t head d = vitAcc qkv' t head d
  := by
  simp only [vitAcc]
  apply List.foldl_ext
  intro acc s hs
  have hs' := List.mem_range.mp hs
  simp only [vitProb_congr h ht hhead hs', axiReadI32_congr h hs' hhead hdim (Nat.le_refl _)]

/-- Attention reads the rows of queries, keys and values, and nothing else. -/
theorem vitAttentionFull_congr (out : ℕ → AXI256) :
  vitAttentionFull qkv out = vitAttentionFull qkv' out
  := by
  simp only [vitAttentionFull]
  apply List.foldl_ext
  intro out t ht
  apply List.foldl_ext
  intro out head hhead
  apply List.foldl_ext
  intro out d hdim
  have ht' := List.mem_range.mp ht
  have hhead' := List.mem_range.mp hhead
  rw [vitAcc_congr h ht' hhead' (List.mem_range.mp hdim), vitDenom_congr h ht' hhead']

end Frame

/-! ### The kernels -/

/-- A launch of a mode for a shape that `smolvlm2_vit_prefill_kernel` multiplies. -/
def supportedModeShape (mode : KernelMode) (M K N : ℕ) : Prop :=
  mode = .vitPatch ∧ M = vitTokens ∧ K = vitC ∧ N = vitC
    ∨ mode = .vitQkv ∧ M = vitTokens ∧ K = vitC ∧ N = vitQkv
    ∨ mode = .vitFfn ∧ M = vitTokens ∧ K = vitC ∧ N = vitFfnDim
    ∨ mode = .vitFfn ∧ M = vitTokens ∧ K = vitFfnDim ∧ N = vitC

instance (mode : KernelMode) (M K N : ℕ) : Decidable (supportedModeShape mode M K N) :=
  inferInstanceAs (Decidable (_ ∨ _))

/-- `smolvlm2_vit_prefill_kernel`: the buffer `actOut` after a launch. -/
def smolvlm2VitPrefillKernel (actIn wgt scales actOut : ℕ → AXI256) (mode : KernelMode)
    (M K N wgtOffset metaOffset : ℕ) : ℕ → AXI256 :=
  let wgtBase := fun i => wgt (wgtOffset + i)
  let metaBase := fun i => scales (metaOffset + i)
  if mode = .vitAttn ∧ M = vitTokens ∧ K = vitQkv ∧ N = vitC then vitAttentionFull actIn actOut
  else if supportedModeShape mode M K N ∨ mode = .genericGemm ∧ isSupportedMatchShape M K N then
    unifiedGemmW4A8Int8InInt32Out actIn wgtBase metaBase M K N actOut
  else actOut

section Launches

variable (actIn wgt scales actOut : ℕ → AXI256) (wgtOffset metaOffset : ℕ)

/-- The launch for the attention. -/
theorem smolvlm2VitPrefillKernel_attn :
  smolvlm2VitPrefillKernel actIn wgt scales actOut .vitAttn vitTokens vitQkv vitC wgtOffset
      metaOffset
    = vitAttentionFull actIn actOut
  := by
  rw [smolvlm2VitPrefillKernel, if_pos ⟨rfl, rfl, rfl, rfl⟩]

/-- The launches that multiply. -/
theorem smolvlm2VitPrefillKernel_gemm {mode : KernelMode} {M K N : ℕ}
    (h : supportedModeShape mode M K N) :
  smolvlm2VitPrefillKernel actIn wgt scales actOut mode M K N wgtOffset metaOffset
    = unifiedGemmW4A8Int8InInt32Out actIn (fun i => wgt (wgtOffset + i))
        (fun i => scales (metaOffset + i)) M K N actOut
  := by
  have hmode : ¬ (mode = .vitAttn ∧ M = vitTokens ∧ K = vitQkv ∧ N = vitC) := by
    rintro ⟨rfl, -⟩
    rcases h with ⟨⟨⟩, -⟩ | ⟨⟨⟩, -⟩ | ⟨⟨⟩, -⟩ | ⟨⟨⟩, -⟩
  rw [smolvlm2VitPrefillKernel, if_neg hmode, if_pos (.inl h)]

end Launches

/-- Word `cw` of patch `(py, px)` of the shuffled token `(oy, ox)`. -/
def shuffledWord (tokens : ℕ → AXI256) (oy ox py px cw : ℕ) : AXI256 :=
  let inTok := (oy * pixelShuffleFactor + py) * vitPatchGrid + (ox * pixelShuffleFactor + px)
  packLanes 256 32 fun b =>
    BitVec.ofInt 8 (axiReadI32 tokens (inTok * vitC + cw * 32 + b) >>> (8 : ℕ))

/-- `pixel_shuffle_4x`. -/
def pixelShuffle4x (tokens shuffled : ℕ → AXI256) : ℕ → AXI256 :=
  let side := vitPatchGrid / pixelShuffleFactor
  (List.range side).foldl (fun shuffled oy =>
    (List.range side).foldl (fun shuffled ox =>
      (List.range pixelShuffleFactor).foldl (fun shuffled py =>
        (List.range pixelShuffleFactor).foldl (fun shuffled px =>
          (List.range (vitC / 32)).foldl (fun shuffled cw =>
            let outTok := oy * side + ox
            let patchSlot := (py * pixelShuffleFactor + px) * vitC
            Function.update shuffled ((outTok * connectorIn + patchSlot + cw * 32) / 32)
              (shuffledWord tokens oy ox py px cw)) shuffled) shuffled) shuffled) shuffled)
    shuffled

/-- `smolvlm2_connector_kernel`: the buffer `imageTokens` after a launch; `shuffleBuf` holds
what the launch before left in the shuffle buffer. -/
def smolvlm2ConnectorKernel (tokens projectorWgt projectorMeta shuffleBuf out : ℕ → AXI256)
    (runProjector : Bool) (wgtOffset metaOffset : ℕ) : ℕ → AXI256 :=
  let wgtBase := fun i => projectorWgt (wgtOffset + i)
  let metaBase := fun i => projectorMeta (metaOffset + i)
  let shuffled := pixelShuffle4x tokens shuffleBuf
  if runProjector then
    unifiedGemmW4A8Int8InInt32Out shuffled wgtBase metaBase imageTokens connectorIn connectorOut
      out
  else
    (List.range (imageTokens * connectorOut / 32)).foldl
      (fun out i => Function.update out i (shuffled i)) out

end Kv260
