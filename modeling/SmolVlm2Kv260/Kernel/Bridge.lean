import SmolVlm2Kv260.Kernel.UnifiedGemm

/-!
# The bridge kernel

`smolvlm2_image_to_decoder_bridge_kernel` takes the integers that the connector computed for
the image tokens, divides them by 256 and stores the low bytes as activations of the decoder,
beginning at a given token.
-/

set_option autoImplicit false

namespace Kv260

open Blocks

/-- The word `i` of a byte memory is written. -/
def writeWord (bytes : ℕ → BitVec 8) (i : ℕ) (w : AXI256) (a : ℕ) : BitVec 8 :=
  if a / 32 = i then w.extractLsb' (a % 32 * 8) 8 else bytes a

/-- `(INT8)(v >> 8)`. -/
def requantInt8 (v : ℤ) : BitVec 8 := BitVec.ofInt 8 (v >>> (8 : ℕ))

/-- The word `ow` of the output. -/
def bridgeWord (imageTokens : ℕ → AXI256) (ow : ℕ) : AXI256 :=
  (List.range 4).foldl (fun dst group =>
    (List.range 8).foldl (fun dst lane =>
      setRange dst ((group * 8 + lane) * 8)
        (requantInt8 ((imageTokens (ow * 4 + group)).extractLsb' (lane * 32) 32).toInt)) dst) 0

/-- `smolvlm2_image_to_decoder_bridge_kernel`, for arguments that are not negative. -/
def imageToDecoderBridge (imageTokens decoderAct : ℕ → BitVec 8)
    (dstTokenOffset numImageTokens hiddenSize : ℕ) : ℕ → BitVec 8 :=
  if hiddenSize ≠ C ∨ numImageTokens = 0 then decoderAct
  else
    let totalOutWords := numImageTokens * hiddenSize / 32
    let dstWordBase := dstTokenOffset * hiddenSize / 32
    (List.range totalOutWords).foldl
      (fun act ow => writeWord act (dstWordBase + ow) (bridgeWord (axiWord imageTokens) ow))
      decoderAct

/-! ### What it writes -/

/-- The bytes of an output word are those of 32 successive integers. -/
theorem bridgeWord_byte (imageTokens : ℕ → AXI256) (ow : ℕ) {b : ℕ} (hb : b < 32) :
  (bridgeWord imageTokens ow).extractLsb' (b * 8) 8
    = requantInt8 (axiReadI32Linear imageTokens (ow * 32 + b))
  := by
  have hword : bridgeWord imageTokens ow
      = packLanes 256 32 fun i => requantInt8 (axiReadI32Linear imageTokens (ow * 32 + i)) := by
    have hlane : ∀ group lane, lane < 8 →
        ((imageTokens (ow * 4 + group)).extractLsb' (lane * 32) 32).toInt
          = axiReadI32Linear imageTokens (ow * 32 + (group * 8 + lane)) := by
      intro group lane hlt
      have hdiv : (ow * 32 + (group * 8 + lane)) / 8 = ow * 4 + group := by omega
      have hmod : (ow * 32 + (group * 8 + lane)) % 8 = lane := by omega
      rw [axiReadI32Linear, hdiv, hmod]
    have hgroups : 32 = 4 * 8 := rfl
    rw [packLanes, hgroups, ← foldl_range_mul, bridgeWord]
    apply List.foldl_ext
    intro dst group _
    apply List.foldl_ext
    intro dst lane hmem
    rw [hlane group lane (List.mem_range.mp hmem)]
  rw [hword, extractLsb'_packLanes _ (by decide) hb]

/-- A loop over successive words writes the bytes of those words. -/
theorem foldl_writeWord (word : ℕ → AXI256) (base n : ℕ) (bytes : ℕ → BitVec 8) (a : ℕ) :
  (List.range n).foldl (fun act ow => writeWord act (base + ow) (word ow)) bytes a
    = if base * 32 ≤ a ∧ a < (base + n) * 32
      then (word (a / 32 - base)).extractLsb' (a % 32 * 8) 8 else bytes a
  := by
  have hword : ∀ (act : ℕ → BitVec 8) (ow : ℕ), writeWord act (base + ow) (word ow) a
      = if ((a / 32 : ℕ) : ℤ) = base + ow then (word ow).extractLsb' (a % 32 * 8) 8
        else act a :=
    fun _ _ => if_congr (by omega) rfl rfl
  have hwords := Blocks.foldl_range_write (r := fun bytes : ℕ → BitVec 8 => bytes a) hword bytes n
  have hin : ((base : ℤ) ≤ (a / 32 : ℕ) ∧ ((a / 32 : ℕ) : ℤ) < base + n)
      ↔ (base * 32 ≤ a ∧ a < (base + n) * 32) := by
    omega
  have hplace : (((a / 32 : ℕ) : ℤ) - base).toNat = a / 32 - base := by omega
  rw [hwords, hplace]
  exact if_congr hin rfl rfl

/-- Element `c` of image token `t`, as an activation of the decoder. -/
def requantImage (imageTokens : ℕ → BitVec 8) (t c : ℕ) : BitVec 8 :=
  requantInt8 (axiReadI32Linear (axiWord imageTokens) (t * C + c))

/-- The kernel writes the elements of the image tokens to the given tokens, and nothing
else. -/
theorem imageToDecoderBridge_row (imageTokens decoderAct : ℕ → BitVec 8) {dst num : ℕ}
    (hnum : 0 < num) (t : ℕ) {c : ℕ} (hc : c < C) :
  imageToDecoderBridge imageTokens decoderAct dst num C (t * C + c)
    = if dst ≤ t ∧ t < dst + num then requantImage imageTokens (t - dst) c
      else decoderAct (t * C + c)
  := by
  have hguard : ¬ (C ≠ C ∨ num = 0) := by
    rintro (hne | hzero)
    · exact hne rfl
    · omega
  have hindex : dst ≤ t →
      ((t * C + c) / 32 - dst * 30) * 32 + (t * C + c) % 32 = (t - dst) * C + c := by
    change c < 960 at hc
    change dst ≤ t →
      ((t * 960 + c) / 32 - dst * 30) * 32 + (t * 960 + c) % 32 = (t - dst) * 960 + c
    omega
  have hrange : (dst * 30 * 32 ≤ t * C + c ∧ t * C + c < (dst * 30 + num * 30) * 32)
      ↔ dst ≤ t ∧ t < dst + num := by
    change c < 960 at hc
    change (dst * 30 * 32 ≤ t * 960 + c ∧ t * 960 + c < (dst * 30 + num * 30) * 32) ↔ _
    omega
  have hwords : ∀ n, n * C / 32 = n * 30 := by
    intro n
    change n * 960 / 32 = n * 30
    omega
  simp only [imageToDecoderBridge, if_neg hguard, hwords, foldl_writeWord, hrange]
  by_cases hin : dst ≤ t ∧ t < dst + num
  · rw [if_pos hin, if_pos hin, bridgeWord_byte _ _ (Nat.mod_lt _ (by decide)), hindex hin.1,
      requantImage]
  · rw [if_neg hin, if_neg hin]

end Kv260
