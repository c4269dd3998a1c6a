import SmolVlm2Kv260.Dataflow.DecoderLayer
import SmolVlm2Kv260.Kernel.BridgeInt
import SmolVlm2Kv260.Kernel.PixelShuffle

/-!
# Requantisation to bytes

The decoder, the pixel shuffle and the bridge divide an `INT32` by 256 and store the low byte.
What they store is the quotient when it fits, and wraps when it does not: it agrees with the
quotient clamped to a byte only in and, by coincidence, once in 256 quotients outside of the
range.
-/

set_option autoImplicit false

namespace Kv260

open Memory

/-! ### The stored value -/

/-- What is stored for `v`: the low byte of `v / 256`. -/
def storedInt8 (v : ℤ) : ℤ := apInt 8 (v / 256)

/-- `v / 256`, clamped to a byte. -/
def clampedInt8 (v : ℤ) : ℤ := max (-128) (min 127 (v / 256))

theorem toInt_requantInt8 (v : ℤ) :
  (requantInt8 v).toInt = storedInt8 v
  := by
  rw [requantInt8, Int.shiftRight_eq_div_pow, BitVec.toInt_ofInt, Int.bmod_def, storedInt8, apInt]
  split <;> omega

/-- What is stored is the clamped quotient when the quotient fits, or when its low byte is the
bound of the side on which it does not. -/
theorem storedInt8_eq_clampedInt8_iff (v : ℤ) :
  storedInt8 v = clampedInt8 v
    ↔ -128 ≤ v / 256 ∧ v / 256 ≤ 127
      ∨ 127 < v / 256 ∧ v / 256 % 256 = 127
      ∨ v / 256 < -128 ∧ v / 256 % 256 = 128
  := by
  rw [storedInt8, clampedInt8, apInt]
  omega

/-- Values of the range are stored in their order. -/
theorem storedInt8_le {v w : ℤ} (hv : -32768 ≤ v) (hle : v ≤ w) (hw : w < 32768) :
  storedInt8 v ≤ storedInt8 w
  := by
  rw [storedInt8, storedInt8, apInt_of_mem (by decide) (by omega) (by omega),
    apInt_of_mem (by decide) (by omega) (by omega)]
  omega

/-! ### `store_act` -/

section StoreAct

variable (resBuf1 : ResBuf) (tokenOffset tokenCount : ℕ) (actOut : ℕ → AXI256)

/-- The word of columns `v * 32` to `v * 32 + 31` of a row. -/
def actWord (row v : ℕ) : AXI256 :=
  packLanes 256 32 fun b => BitVec.ofInt 8 (resBuf1 row (v * 32 + b) >>> (8 : ℕ))

/-- The words `store_act` writes. -/
def storeActLog : List (ℕ × AXI256) :=
  (List.range tokenCount).flatMap fun t =>
    (List.range (C / 32)).map fun v =>
      (((tokenOffset + t) * C + v * 32) / 32, actWord resBuf1 (tokenOffset + t) v)

theorem storeAct_eq :
  storeAct resBuf1 tokenOffset tokenCount actOut
    = axiWords.writeAll actOut (storeActLog resBuf1 tokenOffset tokenCount)
  := by
  rw [storeActLog, Cells.writeAll_flatMap]
  apply List.foldl_ext
  intro actOut t _
  rw [Cells.writeAll, List.foldl_map]
  rfl

theorem mem_storeActLog {w : ℕ × AXI256} :
  w ∈ storeActLog resBuf1 tokenOffset tokenCount
    ↔ ∃ t < tokenCount, ∃ v < 30,
        w = (((tokenOffset + t) * 960 + v * 32) / 32, actWord resBuf1 (tokenOffset + t) v)
  := by
  simp only [storeActLog, List.mem_flatMap, List.mem_map, List.mem_range, eq_comm (a := w)]
  rfl

/-- The bytes of a row are its columns, requantised. -/
theorem axiReadI8Linear_storeAct {t c : ℕ} (ht : t < tokenCount) (hc : c < C) :
  axiReadI8Linear (storeAct resBuf1 tokenOffset tokenCount actOut) ((tokenOffset + t) * C + c)
    = storedInt8 (resBuf1 (tokenOffset + t) c)
  := by
  change c < 960 at hc
  have hlatest : latest (storeActLog resBuf1 tokenOffset tokenCount)
      (((tokenOffset + t) * 960 + c) / 32) = some (actWord resBuf1 (tokenOffset + t) (c / 32)) := by
    apply latest_eq_some
    · rw [mem_storeActLog]
      refine ⟨t, ht, c / 32, by omega, ?_⟩
      congr 1
      omega
    · intro w hw hword
      obtain ⟨t', -, v, hv, rfl⟩ := (mem_storeActLog _ _ _).mp hw
      obtain ⟨rfl, rfl⟩ : t' = t ∧ v = c / 32 := by omega
      rfl
  have hword := axiWords.read_writeAll actOut (storeActLog resBuf1 tokenOffset tokenCount)
    (((tokenOffset + t) * 960 + c) / 32)
  rw [hlatest, Option.getD_some, ← storeAct_eq] at hword
  change storeAct resBuf1 tokenOffset tokenCount actOut (((tokenOffset + t) * 960 + c) / 32)
    = _ at hword
  have hbyte : ((tokenOffset + t) * 960 + c) % 32 = c % 32 := by omega
  have hcol : c / 32 * 32 + c % 32 = c := by omega
  change axiReadI8Linear _ ((tokenOffset + t) * 960 + c) = _
  rw [axiReadI8Linear, hword, hbyte, actWord,
    extractLsb'_packLanes _ (by decide) (Nat.mod_lt _ (by decide)), hcol]
  apply toInt_requantInt8

end StoreAct

/-! ### The three kernels -/

/-- For any contents, the three kernels store the low byte of the quotient; it is the clamped
quotient exactly when that fits or its low byte is the bound it exceeds, and in the range of
Q8.8 it is monotone. -/
theorem requant_stores_low_byte :
  (∀ (resBuf1 : ResBuf) (tokenOffset tokenCount : ℕ) (actOut : ℕ → AXI256),
    ∀ t < tokenCount, ∀ c < C,
      axiReadI8Linear (storeAct resBuf1 tokenOffset tokenCount actOut) ((tokenOffset + t) * C + c)
        = storedInt8 (resBuf1 (tokenOffset + t) c))
    ∧ (∀ (tokens shuffled : ℕ → AXI256) (e : PatchEntry),
      axiReadI8Linear (pixelShuffle4x tokens shuffled) e.byte
        = storedInt8 (axiReadI32 tokens e.lane))
    ∧ (∀ (imageTokens : ℕ → AXI256) (decoderAct : ℤ → BitVec 8) (dst num : ℤ), 1 ≤ num →
      ∀ ow b : ℕ, ow < (tokenWords num).toNat → b < 32 →
        (imageToDecoderBridgeInt imageTokens decoderAct dst num C
            ((tokenWords dst + ow) * 32 + b)).toInt
          = storedInt8 (axiReadI32Linear imageTokens (ow * 32 + b)))
    ∧ (∀ v, storedInt8 v = clampedInt8 v
      ↔ -128 ≤ v / 256 ∧ v / 256 ≤ 127
        ∨ 127 < v / 256 ∧ v / 256 % 256 = 127
        ∨ v / 256 < -128 ∧ v / 256 % 256 = 128)
    ∧ ∀ v w, -32768 ≤ v → v ≤ w → w < 32768 → storedInt8 v ≤ storedInt8 w
  := by
  refine ⟨?_, ?_, ?_, storedInt8_eq_clampedInt8_iff, fun v w => storedInt8_le⟩
  · intro resBuf1 tokenOffset tokenCount actOut t ht c hc
    apply axiReadI8Linear_storeAct _ _ _ _ ht hc
  · intro tokens shuffled e
    rw [axiReadI8Linear_byte, toInt_requantInt8]
  · intro imageTokens decoderAct dst num hnum ow b how hb
    have hrow : (((tokenWords dst + ow) * 32 + b) / 32 - tokenWords dst).toNat = ow := by omega
    have hlane : (((tokenWords dst + ow) * 32 + b) % 32).toNat = b := by omega
    rw [imageToDecoderBridgeInt_byte _ _ _ hnum, if_pos (by omega), hrow, hlane, toInt_requantInt8]

/-- A residual of 32767 is stored as 127, and the next larger one as `-128`, where the clamped
quotient is 127. -/
theorem requant_wraps :
  axiReadI8Linear (storeAct ⟨fun _ _ => 32767⟩ 0 1 fun _ => 0) 0 = 127
    ∧ axiReadI8Linear (storeAct ⟨fun _ _ => 32768⟩ 0 1 fun _ => 0) 0 = -128
    ∧ clampedInt8 32768 = 127
  := by
  have hstored := fun res => axiReadI8Linear_storeAct res 0 1 (fun _ => 0) (t := 0) (c := 0)
    (by decide) (by decide)
  refine ⟨(hstored _).trans ?_, (hstored _).trans ?_, by decide⟩
  · decide
  · decide

end Kv260
