import SmolVlm2Kv260.Kernel.Bridge

/-!
# The bridge kernel with its `int` arguments

The kernel multiplies the token offset and the number of tokens by the hidden size in an `int`.
Its word addresses are those of the tokens exactly when both products fit.

The buffer of activations is a function from all integers here, so that a write in front of its
beginning is seen as a write to another byte.
-/

set_option autoImplicit false

namespace Kv260

/-- The word at `i` of a byte memory is written. -/
def writeWordAt (bytes : ℤ → BitVec 8) (i : ℤ) (w : AXI256) (a : ℤ) : BitVec 8 :=
  if a / 32 = i then w.extractLsb' ((a % 32).toNat * 8) 8 else bytes a

/-- `smolvlm2_image_to_decoder_bridge_kernel`. -/
def imageToDecoderBridgeInt (imageTokens : ℕ → AXI256) (decoderAct : ℤ → BitVec 8)
    (dstTokenOffset numImageTokens hiddenSize : ℤ) : ℤ → BitVec 8 :=
  if hiddenSize ≠ C ∨ numImageTokens ≤ 0 then decoderAct
  else
    let totalOutWords := (apInt 32 (numImageTokens * hiddenSize)).tdiv 32
    let dstWordBase := (apInt 32 (dstTokenOffset * hiddenSize)).tdiv 32
    (List.range totalOutWords.toNat).foldl
      (fun act (ow : ℕ) => writeWordAt act (dstWordBase + ow) (bridgeWord imageTokens ow))
      decoderAct

/-- A loop over successive words writes the bytes of those words. -/
theorem foldl_writeWordAt (word : ℕ → AXI256) (base : ℤ) (n : ℕ) (bytes : ℤ → BitVec 8) (a : ℤ) :
  (List.range n).foldl (fun act (ow : ℕ) => writeWordAt act (base + ow) (word ow)) bytes a
    = if base * 32 ≤ a ∧ a < (base + n) * 32
      then (word (a / 32 - base).toNat).extractLsb' ((a % 32).toNat * 8) 8 else bytes a
  := by
  have hwords := Blocks.foldl_range_write (r := fun bytes : ℤ → BitVec 8 => bytes a)
    (f := fun act (ow : ℕ) => writeWordAt act (base + ow) (word ow)) (fun _ _ => rfl) bytes n
  have hin : (base ≤ a / 32 ∧ a / 32 < base + n) ↔ (base * 32 ≤ a ∧ a < (base + n) * 32) := by
    omega
  exact hwords.trans (if_congr hin rfl rfl)

/-- The words of `n` tokens, as the kernel computes their number. -/
def tokenWords (n : ℤ) : ℤ := (apInt 32 (n * C)).tdiv 32

/-- The bytes of a launch, for the hidden size of the model. -/
theorem imageToDecoderBridgeInt_byte (imageTokens : ℕ → AXI256) (decoderAct : ℤ → BitVec 8)
    (dst : ℤ) {num : ℤ} (hnum : 1 ≤ num) (a : ℤ) :
  imageToDecoderBridgeInt imageTokens decoderAct dst num C a
    = if tokenWords dst * 32 ≤ a ∧ a < (tokenWords dst + (tokenWords num).toNat) * 32
      then requantInt8 (axiReadI32Linear imageTokens
        ((a / 32 - tokenWords dst).toNat * 32 + (a % 32).toNat))
      else decoderAct a
  := by
  have hguard : ¬ ((C : ℤ) ≠ C ∨ num ≤ 0) := by omega
  have hbyte : (bridgeWord imageTokens (a / 32 - tokenWords dst).toNat).extractLsb'
      ((a % 32).toNat * 8) 8
        = requantInt8 (axiReadI32Linear imageTokens
          ((a / 32 - tokenWords dst).toNat * 32 + (a % 32).toNat)) := by
    apply bridgeWord_byte
    omega
  rw [imageToDecoderBridgeInt, if_neg hguard, ← hbyte]
  apply foldl_writeWordAt

/-- The number of words is right exactly when the product fits an `int`. -/
theorem tokenWords_eq_iff {n : ℤ} (hn : 0 ≤ n) :
  tokenWords n = n * 30 ↔ n * 960 < 2 ^ 31
  := by
  have htrunc := Int.tdiv_mul_add_tmod (apInt 32 (n * 960)) 32
  have hlow := Int.lt_tmod_of_pos (apInt 32 (n * 960)) (b := 32) (by decide)
  have hhigh := Int.tmod_lt_of_pos (apInt 32 (n * 960)) (b := 32) (by decide)
  change tokenWords n * 32 + _ = _ at htrunc
  constructor
  · intro hwords
    have hlt := (apInt_mem (w := 32) (by decide) (n * 960)).2
    omega
  · intro hfits
    rw [apInt_of_mem (w := 32) (x := n * 960) (by decide) (by omega) (by omega)]
      at htrunc hlow hhigh
    omega

/-- While the products fit, the launch is that for arguments without a bound. -/
theorem imageToDecoderBridgeInt_natCast (imageTokens : ℕ → BitVec 8) (decoderAct : ℤ → BitVec 8)
    {dst num : ℕ} (hnum : 0 < num) (hdst : dst * 960 < 2 ^ 31) (hnum' : num * 960 < 2 ^ 31)
    (a : ℕ) :
  imageToDecoderBridgeInt (axiWord imageTokens) decoderAct dst num C a
    = imageToDecoderBridge imageTokens (fun i => decoderAct i) dst num C a
  := by
  have hbase : tokenWords dst = dst * 30 := (tokenWords_eq_iff (by omega)).mpr (by omega)
  have htotal : tokenWords num = num * 30 := (tokenWords_eq_iff (by omega)).mpr (by omega)
  have hcol : a % C < C := Nat.mod_lt a (by decide)
  have hrow : imageToDecoderBridge imageTokens (fun i => decoderAct i) dst num C
      (a / C * C + a % C) = _ :=
    imageToDecoderBridge_row imageTokens (fun i => decoderAct i) hnum (a / C) hcol
  rw [Nat.div_add_mod'] at hrow
  rw [hrow, imageToDecoderBridgeInt_byte _ _ _ (by omega), hbase, htotal]
  change _ = if dst ≤ a / 960 ∧ a / 960 < dst + num then requantImage imageTokens (a / 960 - dst)
    (a % 960) else decoderAct a
  by_cases hin : dst ≤ a / 960 ∧ a / 960 < dst + num
  · have hidx : ((a : ℤ) / 32 - dst * 30).toNat * 32 + ((a : ℤ) % 32).toNat
        = (a / 960 - dst) * 960 + a % 960 := by omega
    rw [if_pos (by omega), if_pos hin, hidx]
    rfl
  · rw [if_neg (by omega), if_neg hin]

/-- Every element of the image tokens is stored in its row behind the first `dst` ones, and all
other bytes stay. -/
structure BridgePlaces (dst num : ℤ) (imageTokens : ℕ → AXI256) (decoderAct : ℤ → BitVec 8) :
    Prop where
  stored : ∀ r c : ℕ, r < num → c < C →
    imageToDecoderBridgeInt imageTokens decoderAct dst num C ((dst + r) * C + c)
      = BitVec.ofInt 8 (axiReadI32Linear imageTokens (r * C + c) / 256)
  kept : ∀ a, (∀ r c : ℕ, r < num → c < C → a ≠ (dst + r) * C + c) →
    imageToDecoderBridgeInt imageTokens decoderAct dst num C a = decoderAct a

section Places

variable {dst num : ℤ} (hdst : 0 ≤ dst) (hnum : 1 ≤ num)

include hdst hnum

theorem bridgePlaces_of_fits (hdst' : dst * 960 < 2 ^ 31) (hnum' : num * 960 < 2 ^ 31)
    (imageTokens : ℕ → AXI256) (decoderAct : ℤ → BitVec 8) :
  BridgePlaces dst num imageTokens decoderAct
  := by
  have hbase : tokenWords dst = dst * 30 := (tokenWords_eq_iff hdst).mpr hdst'
  have htotal : tokenWords num = num * 30 := (tokenWords_eq_iff (by omega)).mpr hnum'
  constructor
  · intro r c hr hc
    change c < 960 at hc
    change imageToDecoderBridgeInt imageTokens decoderAct dst num C ((dst + r) * 960 + c) = _
    have hidx : (((dst + r) * 960 + c) / 32 - dst * 30).toNat * 32
        + (((dst + r) * 960 + c) % 32).toNat = r * C + c := by
      change _ = r * 960 + c
      omega
    rw [imageToDecoderBridgeInt_byte _ _ _ hnum, hbase, htotal, if_pos (by omega), hidx,
      requantInt8, Int.shiftRight_eq_div_pow]
    rfl
  · intro a ha
    rw [imageToDecoderBridgeInt_byte _ _ _ hnum, hbase, htotal, if_neg]
    intro hin
    apply ha ((a / 960 - dst).toNat) ((a % 960).toNat)
    · omega
    · change (a % 960).toNat < 960
      omega
    · change a = (dst + (a / 960 - dst).toNat) * 960 + (a % 960).toNat
      omega

/-- Zeros over ones show which bytes are written. -/
theorem fits_of_bridgePlaces (h : BridgePlaces dst num (fun _ => 0) fun _ => 1) :
  dst * 960 < 2 ^ 31 ∧ num * 960 < 2 ^ 31
  := by
  have hzero : ∀ idx, axiReadI32Linear (fun _ => 0) idx = 0 := by
    intro idx
    rw [axiReadI32Linear]
    simp
  have hwritten : ∀ a, imageToDecoderBridgeInt (fun _ => 0) (fun _ => 1) dst num C a = 0
      ↔ tokenWords dst * 32 ≤ a ∧ a < (tokenWords dst + (tokenWords num).toNat) * 32 := by
    intro a
    rw [imageToDecoderBridgeInt_byte _ _ _ hnum, hzero]
    split
    · rename_i hin
      exact ⟨fun _ => hin, fun _ => rfl⟩
    · rename_i hout
      constructor
      · intro hone
        exact absurd hone (by decide)
      · intro hin
        exact absurd hin hout
  have hmeant : ∀ a, imageToDecoderBridgeInt (fun _ => 0) (fun _ => 1) dst num C a = 0
      ↔ dst * 960 ≤ a ∧ a < (dst + num) * 960 := by
    intro a
    constructor
    · intro hz
      by_contra hout
      have hkept := h.kept a (by
        rintro r c hr hc rfl
        change c < 960 at hc
        change ¬ (dst * 960 ≤ (dst + r) * 960 + c ∧ (dst + r) * 960 + c < (dst + num) * 960) at hout
        omega)
      rw [hz] at hkept
      revert hkept
      decide
    · intro hin
      have hstored := h.stored ((a / 960 - dst).toNat) ((a % 960).toNat) (by omega)
        (by change (a % 960).toNat < 960; omega)
      have ha : (dst + ((a / 960 - dst).toNat : ℤ)) * C + ((a % 960).toNat : ℤ) = a := by
        change (dst + ((a / 960 - dst).toNat : ℤ)) * 960 + ((a % 960).toNat : ℤ) = a
        omega
      rw [ha, hzero] at hstored
      rw [hstored]
      rfl
  have hsame := fun a => (hwritten a).symm.trans (hmeant a)
  have hfirst := (hsame (dst * 960)).mpr (by omega)
  have hfirst' := (hsame (tokenWords dst * 32)).mp (by omega)
  have hlast := (hsame ((dst + num) * 960 - 1)).mpr (by omega)
  have hlast' := (hsame ((tokenWords dst + (tokenWords num).toNat) * 32 - 1)).mp (by omega)
  rw [← tokenWords_eq_iff hdst, ← tokenWords_eq_iff (by omega)]
  omega

/-- The bridge places the image tokens, and keeps everything else, exactly when the token offset
and the number of tokens times the hidden size both fit an `int`. -/
theorem bridgePlaces_iff :
  (∀ imageTokens decoderAct, BridgePlaces dst num imageTokens decoderAct)
    ↔ dst * 960 < 2 ^ 31 ∧ num * 960 < 2 ^ 31
  := by
  constructor
  · intro h
    apply fits_of_bridgePlaces hdst hnum (h _ _)
  · rintro ⟨hdst', hnum'⟩ imageTokens decoderAct
    apply bridgePlaces_of_fits hdst hnum hdst' hnum'

end Places

/-- The image tokens behind eight text tokens. -/
theorem bridgePlaces_image :
  (∀ imageTokens decoderAct, BridgePlaces 8 64 imageTokens decoderAct)
    ↔ (8 : ℤ) * 960 < 2 ^ 31 ∧ (64 : ℤ) * 960 < 2 ^ 31
  := bridgePlaces_iff (by decide) (by decide)

/-- The first offset whose product does not fit. -/
theorem not_bridgePlaces_offset :
  ¬ BridgePlaces 2236963 1 (fun _ => 0) fun _ => 1
  := by
  intro h
  have hfits := (fits_of_bridgePlaces (by decide) (by decide) h).1
  revert hfits
  decide

end Kv260
