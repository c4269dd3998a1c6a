import SmolVlm2Kv260.Kernel.Attention
import SmolVlm2Kv260.Kernel.Rope
import SmolVlm2Kv260.Kernel.UnifiedGemm
import Mathlib.Algebra.BigOperators.Ring.Finset
import Mathlib.Algebra.Order.BigOperators.Group.Finset
import Mathlib.Algebra.Order.Ring.Abs
import Mathlib.Data.List.GetD

/-!
# Attention scores

The loop `QK_DOT` of `flash_attention_head` narrows a query to `INT16` before it multiplies it by
the decoded nibbles of a key.  The accumulator holds the sum of the narrowed products, so a score
is exact when narrowing does not change that sum, and the scores of all keys are when the query
fits.
-/

set_option autoImplicit false

namespace Kv260

open Blocks

/-! ### Decoded nibbles -/

theorem storedNibble_nonneg (pack : ℕ → BitVec 128) (pos d : ℕ) :
  0 ≤ storedNibble pack pos d
  := Int.natCast_nonneg _

theorem storedNibble_lt (pack : ℕ → BitVec 128) (pos d : ℕ) :
  storedNibble pack pos d < 16
  := by
  have h := ((pack (bufIdx pos (d / grp))).extractLsb' (d % grp * 4) 4).isLt
  rw [storedNibble]
  omega

/-- The registers of the decoding hold a nibble and its offset by 8. -/
theorem dequantNibble_eq (pack : ℕ → BitVec 128) (pos d : ℕ) :
  dequantNibble pack pos d = storedNibble pack pos d - 8
  := by
  have hnonneg := storedNibble_nonneg pack pos d
  have hlt := storedNibble_lt pack pos d
  change apInt 8 (apInt 5 (storedNibble pack pos d) - 8) = _
  rw [apInt_of_mem (w := 5) (by decide) (by omega) (by omega)]
  apply apInt_of_mem (by decide) <;> omega

theorem abs_dequantNibble_le (pack : ℕ → BitVec 128) (pos d : ℕ) :
  |dequantNibble pack pos d| ≤ 8
  := by
  have hnonneg := storedNibble_nonneg pack pos d
  have hlt := storedNibble_lt pack pos d
  rw [dequantNibble_eq, abs_le]
  omega

/-! ### Sums of products -/

section Query

variable (kPack : ℕ → BitVec 128) (qRow : List ℤ) (pos : ℕ)

/-- The sum of the products of the narrowed query. -/
def narrowedDot : ℤ :=
  ∑ d ∈ Finset.range dHead, apInt 16 (qRow.getD d 0) * dequantNibble kPack pos d

/-- What narrowing takes from the sum. -/
def narrowingLoss : ℤ :=
  ∑ d ∈ Finset.range dHead,
    (qRow.getD d 0 - apInt 16 (qRow.getD d 0)) * dequantNibble kPack pos d

/-- The score in unbounded integers. -/
def exactScore : ℤ :=
  (∑ d ∈ Finset.range dHead, qRow.getD d 0 * (storedNibble kPack pos d - 8)) / 8

theorem abs_narrowedProduct_le (x : ℤ) (d : ℕ) :
  |apInt 16 x * dequantNibble kPack pos d| ≤ 2 ^ 15 * 8
  := by
  obtain ⟨hlow, hhigh⟩ := apInt_mem (show 0 < 16 by decide) x
  rw [abs_mul]
  apply mul_le_mul
  · apply abs_le.mpr
    omega
  · apply abs_dequantNibble_le
  · apply abs_nonneg
  · decide

theorem abs_narrowedDot_le :
  |narrowedDot kPack qRow pos| ≤ 2 ^ 24
  := by
  calc
    |narrowedDot kPack qRow pos|
      ≤ ∑ d ∈ Finset.range dHead, |apInt 16 (qRow.getD d 0) * dequantNibble kPack pos d| :=
      Finset.abs_sum_le_sum_abs _ _
    _ ≤ ∑ d ∈ Finset.range dHead, 2 ^ 15 * 8 :=
      Finset.sum_le_sum fun d _ => abs_narrowedProduct_le kPack pos _ d
    _ = 2 ^ 24 := by
      rw [Finset.sum_const, Finset.card_range]
      rfl

/-- The accumulator does not overflow. -/
theorem score_eq :
  score kPack qRow pos = narrowedDot kPack qRow pos / 8
  := by
  have hproduct : ∀ d, apInt 32 (apInt 16 (qRow.getD d 0) * dequantNibble kPack pos d)
      = apInt 16 (qRow.getD d 0) * dequantNibble kPack pos d := by
    intro d
    have hle := abs_le.mp (abs_narrowedProduct_le kPack pos (qRow.getD d 0) d)
    apply apInt_of_mem (by decide) <;> omega
  have hle := abs_le.mp (abs_narrowedDot_le kPack qRow pos)
  simp only [score, hproduct]
  rw [foldl_apInt_add 31, Int.shiftRight_eq_div_pow, ← narrowedDot]
  rw [apInt_of_mem (by decide) (by omega) (by omega)]
  rfl

theorem abs_score_le :
  |score kPack qRow pos| ≤ 2 ^ 21
  := by
  have hle := abs_le.mp (abs_narrowedDot_le kPack qRow pos)
  rw [score_eq, abs_le]
  omega

/-- Narrowing to `INT16` takes multiples of `2 ^ 16`. -/
theorem dvd_narrowingLoss :
  2 ^ 16 ∣ narrowingLoss kPack qRow pos
  := by
  apply Finset.dvd_sum
  intro d _
  apply Dvd.dvd.mul_right
  rw [apInt]
  omega

theorem exactScore_eq :
  exactScore kPack qRow pos
    = (narrowedDot kPack qRow pos + narrowingLoss kPack qRow pos) / 8
  := by
  rw [exactScore, narrowedDot, narrowingLoss, ← Finset.sum_add_distrib]
  congr 1
  apply Finset.sum_congr rfl
  intro d _
  rw [← add_mul, add_sub_cancel, dequantNibble_eq]

theorem score_eq_exactScore_iff :
  score kPack qRow pos = exactScore kPack qRow pos ↔ narrowingLoss kPack qRow pos = 0
  := by
  have hdvd := dvd_narrowingLoss kPack qRow pos
  rw [score_eq, exactScore_eq]
  omega

end Query

/-! ### All keys -/

/-- Packs of a key whose nibble is zero, decoded as -8, in dimension `e`, and eight, decoded as
zero, in all others. -/
def unitKey (pos e : ℕ) (c : ℕ) : BitVec 128 :=
  packLanes 128 grp fun i =>
    if c = bufIdx pos (e / grp) ∧ i = e % grp then (0 : BitVec 4) else 8

theorem storedNibble_unitKey (pos e d : ℕ) :
  storedNibble (unitKey pos e) pos d = if d = e then 0 else 8
  := by
  have hiff : (bufIdx pos (d / grp) = bufIdx pos (e / grp) ∧ d % grp = e % grp) ↔ d = e := by
    rw [bufIdx_eq, bufIdx_eq, Nat.add_left_cancel_iff]
    constructor
    · rintro ⟨hdiv, hmod⟩
      rw [← Nat.div_add_mod d grp, hdiv, hmod, Nat.div_add_mod]
    · rintro rfl
      exact ⟨rfl, rfl⟩
  rw [storedNibble, unitKey, extractLsb'_packLanes _ (by decide) (Nat.mod_lt d grp_pos)]
  simp only [hiff]
  split <;> rfl

/-- Such a key brings out what narrowing takes from one dimension. -/
theorem narrowingLoss_unitKey (qRow : List ℤ) (pos : ℕ) {e : ℕ} (he : e < dHead) :
  narrowingLoss (unitKey pos e) qRow pos
    = (qRow.getD e 0 - apInt 16 (qRow.getD e 0)) * (-8)
  := by
  rw [narrowingLoss, Finset.sum_eq_single_of_mem e (Finset.mem_range.mpr he)]
  · rw [dequantNibble_eq, storedNibble_unitKey, if_pos rfl]
    rfl
  · intro d _ hne
    rw [dequantNibble_eq, storedNibble_unitKey, if_neg hne, sub_self, mul_zero]

theorem forall_score_eq_exactScore_iff (qRow : List ℤ) (pos : ℕ) :
  (∀ kPack, score kPack qRow pos = exactScore kPack qRow pos)
    ↔ ∀ d < dHead, IsApInt 16 (qRow.getD d 0)
  := by
  simp only [score_eq_exactScore_iff]
  constructor
  · intro h d hd
    have hloss := h (unitKey pos d)
    rw [narrowingLoss_unitKey qRow pos hd] at hloss
    rw [IsApInt]
    omega
  · intro h kPack
    apply Finset.sum_eq_zero
    intro d hd
    rw [show apInt 16 (qRow.getD d 0) = qRow.getD d 0 from h d (Finset.mem_range.mp hd), sub_self,
      zero_mul]

/-! ### Queries -/

theorem abs_sinTurnsQ15_le (phaseTurns : ℕ) :
  |sinTurnsQ15 phaseTurns| ≤ 2 ^ 15
  := by
  have hmag : ∀ p, |quarterWaveLookupQ15 p| ≤ 2 ^ 15 := by
    intro p
    rw [quarterWaveLookupQ15]
    split
    · decide
    · obtain ⟨hlow, hhigh⟩ := apInt_mem (show 0 < 16 by decide) (_ : ℤ)
      apply abs_le.mpr ⟨hlow, le_of_lt hhigh⟩
  rw [sinTurnsQ15]
  split
  · obtain ⟨hlow, hhigh⟩ := apInt_mem (show 0 < 16 by decide) (_ : ℤ)
    apply abs_le.mpr ⟨hlow, le_of_lt hhigh⟩
  · apply hmag

/-- The bound of the GEMM outputs below which a rotated query fits an `INT16`. -/
def queryMax : ℤ := 16383

/-- A rotated value is at most twice the largest one before. -/
theorem isApInt_ropeRotatePair {x₀ x₁ cosV sinV : ℤ} (hx₀ : |x₀| ≤ queryMax)
    (hx₁ : |x₁| ≤ queryMax) (hcos : |cosV| ≤ 2 ^ 15) (hsin : |sinV| ≤ 2 ^ 15) :
  IsApInt 16 (ropeRotatePair x₀ x₁ cosV sinV).1 ∧ IsApInt 16 (ropeRotatePair x₀ x₁ cosV sinV).2
  := by
  have hmul : ∀ {x c : ℤ}, |x| ≤ queryMax → |c| ≤ 2 ^ 15 → |x * c| ≤ queryMax * 2 ^ 15 := by
    intro x c hx hc
    rw [abs_mul]
    apply mul_le_mul hx hc (abs_nonneg c) (by decide)
  have hfits : ∀ {r : ℤ}, |r| ≤ 2 * (queryMax * 2 ^ 15) →
      IsApInt 16 (apInt 32 (apInt 43 r >>> (15 : ℕ))) := by
    intro r hr
    obtain ⟨hlow, hhigh⟩ := abs_le.mp hr
    rw [queryMax] at hlow hhigh
    rw [apInt_of_mem (w := 43) (by decide) (by omega) (by omega), Int.shiftRight_eq_div_pow,
      isApInt_iff (by decide)]
    rw [apInt_of_mem (by decide) (by omega) (by omega)]
    omega
  constructor
  · apply hfits
    apply le_trans (abs_sub _ _)
    have h := hmul hx₀ hcos
    have h' := hmul hx₁ hsin
    omega
  · apply hfits
    apply le_trans (abs_add_le _ _)
    have h := hmul hx₀ hsin
    have h' := hmul hx₁ hcos
    omega

theorem getD_ropeVec (pos : ℕ) (vec : List ℤ) {d : ℕ} (hd : d < dHead) :
  (ropeVec pos vec).getD d 0
    = if d < dHead / 2 then (ropePair pos vec d).1 else (ropePair pos vec (d - dHead / 2)).2
  := by
  have hlen : ∀ f : ℕ → ℤ, ((List.range (dHead / 2)).map f).length = dHead / 2 := by
    intro f
    rw [List.length_map, List.length_range]
  rw [ropeVec]
  split
  · rename_i h
    rw [List.getD_append _ _ _ _ (by rwa [hlen]), List.getD_eq_getElem _ _ (by rwa [hlen]),
      List.getElem_map, List.getElem_range]
  · rename_i h
    have hlow : d - dHead / 2 < dHead / 2 := by
      change d < 64 at hd
      change d - 32 < 32
      omega
    rw [List.getD_append_right _ _ _ _ (by rw [hlen]; omega), hlen,
      List.getD_eq_getElem _ _ (by rwa [hlen]), List.getElem_map, List.getElem_range]

/-- Queries of small GEMM outputs fit. -/
theorem isApInt_ropeVec (pos : ℕ) {vec : List ℤ} (h : ∀ x ∈ vec, |x| ≤ queryMax) {d : ℕ}
    (hd : d < dHead) :
  IsApInt 16 ((ropeVec pos vec).getD d 0)
  := by
  have hvec : ∀ i, |vec.getD i 0| ≤ queryMax := forall_getD h (by decide)
  have hpair : ∀ i, IsApInt 16 (ropePair pos vec i).1 ∧ IsApInt 16 (ropePair pos vec i).2 := by
    intro i
    apply isApInt_ropeRotatePair (hvec _) (hvec _) <;> apply abs_sinTurnsQ15_le
  rw [getD_ropeVec pos vec hd]
  split
  · apply (hpair _).1
  · apply (hpair _).2

/-- The score of a rotated query against a key is exact when the sum loses nothing by narrowing.
The scores against all keys are when each value of the query fits an `INT16`, for instance
when the GEMM outputs do not exceed `queryMax`. -/
theorem score_ropeVec_exact_iff (pos : ℕ) (vec : List ℤ) (p : ℕ) :
  (∀ kPack, score kPack (ropeVec pos vec) p = exactScore kPack (ropeVec pos vec) p
      ↔ narrowingLoss kPack (ropeVec pos vec) p = 0)
    ∧ ((∀ kPack, score kPack (ropeVec pos vec) p = exactScore kPack (ropeVec pos vec) p)
      ↔ ∀ d < dHead, IsApInt 16 ((ropeVec pos vec).getD d 0))
    ∧ ((∀ x ∈ vec, |x| ≤ queryMax) → ∀ kPack,
      score kPack (ropeVec pos vec) p = exactScore kPack (ropeVec pos vec) p)
  := by
  refine ⟨?_, forall_score_eq_exactScore_iff _ p, ?_⟩
  · intro kPack
    apply score_eq_exactScore_iff
  · intro h
    apply (forall_score_eq_exactScore_iff _ p).mpr
    intro d hd
    apply isApInt_ropeVec pos h hd

/-- A single GEMM output of 40000, at position 0, against a key of zero nibbles. -/
theorem score_ropeVec_not_exact :
  score (fun _ => 0) (ropeVec 0 (40000 :: List.replicate 63 0)) 0 = 25538
    ∧ exactScore (fun _ => 0) (ropeVec 0 (40000 :: List.replicate 63 0)) 0 = -39998
  := by
  decide +kernel

end Kv260
