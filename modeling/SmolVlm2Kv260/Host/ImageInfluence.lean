import SmolVlm2Kv260.Host.EncodeImage
import SmolVlm2Kv260.Kernel.PixelShuffle
import SmolVlm2Kv260.Kernel.VitSoftmax

/-!
# What an image token depends on

The launches of `encode_image` hand over buffers of different element sizes: the QKV launch
reads as bytes the first 1024 * 768 of the 1024 * 768 * 4 bytes that the patch launch has
written.  These come from the first 256 patches.  The other three quarters of the image, and
what the buffers held before, have no influence on the image tokens.
-/

set_option autoImplicit false

namespace Kv260

/-- The patches that the QKV launch reads: a quarter of them. -/
abbrev readPatches : ℕ := vitTokens / 4

namespace VisionBuffers

/-- The buffers hold the same weights, and the same values in the patches that are read. -/
structure SameReadPatches (b b' : VisionBuffers) : Prop where
  visionWgt : b.visionWgt = b'.visionWgt
  visionMeta : b.visionMeta = b'.visionMeta
  connectorWgt : b.connectorWgt = b'.connectorWgt
  connectorMeta : b.connectorMeta = b'.connectorMeta
  patches : ∀ t < readPatches, ∀ k < vitC,
    axiReadI8Linear b.vitAct (t * vitC + k) = axiReadI8Linear b'.vitAct (t * vitC + k)

variable {b b' : VisionBuffers} (h : b.SameReadPatches b') (offsets : VisionOffsets)

include h

/-! ### Launch by launch -/

theorem patchOutput_congr {t k : ℕ} (ht : t < readPatches) (hk : k < vitC) :
  patchOutput b offsets t k = patchOutput b' offsets t k
  := by
  have ht' : t < vitTokens := Nat.lt_of_lt_of_le ht (Nat.div_le_self _ _)
  rw [patchOutput_eq b offsets ht' hk, patchOutput_eq b' offsets ht' hk, h.visionWgt, h.visionMeta,
    unifiedElem, unifiedElem]
  apply congrArg (apInt 32)
  apply Finset.sum_congr rfl
  intro k hk
  rw [h.patches t ht k (Finset.mem_range.mp hk)]

/-- The activations of four tokens come from one patch. -/
theorem qkvActivation_congr {t k : ℕ} (ht : t < vitTokens) (hk : k < vitC) :
  qkvActivation b offsets t k = qkvActivation b' offsets t k
  := by
  have ht' : t / 4 < readPatches := by
    change t < 1024 at ht
    change t / 4 < 256
    omega
  have hk' : t % 4 * 192 + k / 4 < vitC := by
    change k < 768 at hk
    change t % 4 * 192 + k / 4 < 768
    omega
  rw [qkvActivation_eq, qkvActivation_eq, patchOutput_congr h offsets ht' hk']

theorem qkvOutput_congr {t : ℕ} (ht : t < vitTokens) (col : ℕ) :
  qkvOutput b offsets t col = qkvOutput b' offsets t col
  := by
  rw [qkvOutput_eq, qkvOutput_eq, h.visionWgt, h.visionMeta]
  apply congrArg (apInt 32)
  apply Finset.sum_congr rfl
  intro k hk
  rw [qkvActivation_congr h offsets ht (Finset.mem_range.mp hk)]

theorem attnInput_congr {t col : ℕ} (ht : t < vitTokens) (hcol : col < vitQkv) :
  attnInput b offsets t col = attnInput b' offsets t col
  := by
  rw [attnInput_eq b offsets ht hcol, attnInput_eq b' offsets ht hcol, qkvOutput_congr h offsets ht]

/-- The buffers before the connector. -/
theorem attnOutput_congr {t c : ℕ} (ht : t < vitTokens) (hc : c < vitC) :
  axiReadI32 (((b.patch offsets).qkv offsets).attn offsets).vitHidden (t * vitC + c)
    = axiReadI32 (((b'.patch offsets).qkv offsets).attn offsets).vitHidden (t * vitC + c)
  := by
  have hread : ∀ t < vitTokens, ∀ col < vitQkv,
      axiReadI32 ((b.patch offsets).qkv offsets).vitTmp (t * vitQkv + col)
        = axiReadI32 ((b'.patch offsets).qkv offsets).vitTmp (t * vitQkv + col) :=
    fun t ht col hcol => attnInput_congr h offsets ht hcol
  have hhead : c / vitHeadDim < vitHeads := by
    change c < 768 at hc
    change c / 64 < 12
    omega
  have hdim : c % vitHeadDim < vitHeadDim := Nat.mod_lt _ (by decide)
  have hlane : t * vitC + c = t * vitC + c / vitHeadDim * vitHeadDim + c % vitHeadDim := by
    change t * 768 + c = t * 768 + c / 64 * 64 + c % 64
    omega
  have hlaunch : ∀ b : VisionBuffers,
      (b.attn offsets).vitHidden = vitAttentionFull b.vitTmp b.vitHidden := by
    intro b
    simp only [attn, smolvlm2VitPrefillKernel_attn]
  rw [hlaunch, hlaunch, hlane, axiReadI32_vitAttentionFull _ _ ht hhead hdim,
    axiReadI32_vitAttentionFull _ _ ht hhead hdim, vitAcc_congr hread ht hhead hdim,
    vitDenom_congr hread ht hhead]

/-! ### The image tokens -/

/-- For any offsets and weights, the image tokens depend on the first quarter of the patches
alone. -/
theorem imageTokens_encodeImage_congr {m n : ℕ} (hm : m < Kv260.imageTokens)
    (hn : n < connectorOut) :
  axiReadI32Linear (b.encodeImage offsets).imageTokens (m * connectorOut + n)
    = axiReadI32Linear (b'.encodeImage offsets).imageTokens (m * connectorOut + n)
  := by
  have hblock : ∀ k ∈ Finset.range connectorIn,
      blockActivation (((b.patch offsets).qkv offsets).attn offsets).vitHidden m k
        = blockActivation (((b'.patch offsets).qkv offsets).attn offsets).vitHidden m k := by
    intro k hk
    have hk' : k < 12288 := Finset.mem_range.mp hk
    have hm' : m < 64 := hm
    have htok : (m / imageGrid * pixelShuffleFactor + k / vitC / pixelShuffleFactor) * vitPatchGrid
        + (m % imageGrid * pixelShuffleFactor + k / vitC % pixelShuffleFactor) < vitTokens := by
      change (m / 8 * 4 + k / 768 / 4) * 32 + (m % 8 * 4 + k / 768 % 4) < 1024
      omega
    have hread := attnOutput_congr h offsets htok (Nat.mod_lt k (by decide : 0 < vitC))
    simp only [blockActivation]
    rw [hread]
  have hweights : ∀ b : VisionBuffers,
      (((b.patch offsets).qkv offsets).attn offsets).connectorWgt = b.connectorWgt
        ∧ (((b.patch offsets).qkv offsets).attn offsets).connectorMeta = b.connectorMeta := by
    intro b
    simp only [attn, qkv, patch, and_self]
  simp only [encodeImage, connRun]
  rw [connector_row _ _ _ _ _ _ _ hm hn, connector_row _ _ _ _ _ _ _ hm hn]
  simp only [hweights, h.connectorWgt, h.connectorMeta]
  apply congrArg (apInt 32)
  apply Finset.sum_congr rfl
  intro k hk
  rw [hblock k hk]

end VisionBuffers

end Kv260
