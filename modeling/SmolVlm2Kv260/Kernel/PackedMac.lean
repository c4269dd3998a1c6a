import SmolVlm2Kv260.Kernel.UnifiedGemm
import Mathlib.Algebra.BigOperators.Ring.Finset
import Mathlib.Algebra.Order.BigOperators.Group.Finset
import Mathlib.Algebra.Order.Ring.Abs
import Mathlib.Tactic.Ring

/-!
# The packed multiply-accumulate

`mac_tile_shared` of `unified_w4a8_gemm.h` and `w4a8_mac_unit` of `w4a8_gemm.h` add the products
of one K-group to a tile of partial sums, two columns at a time.  The two weights of a pair are
packed into one operand:

* The low product is read off nine bits without their sign, so it is off by a multiple of 512.
* A negative low weight covers the high one by its sign bits, and what the low product carries
  beyond nine bits is added to the high product.

A partial sum is exact when these errors cancel over the group.
-/

set_option autoImplicit false

namespace Kv260

/-! ### The operand -/

/-- An `INT8` in a wider register. -/
theorem toInt_ofInt_int8 {w : ℕ} (hw : 8 ≤ w) {x : ℤ} (hx : IsApInt 8 x) :
  (BitVec.ofInt w x).toInt = x
  := by
  obtain ⟨hlow, hhigh⟩ := (isApInt_iff (by decide)).mp hx
  have hpow : (2 : ℤ) ^ (8 - 1) ≤ 2 ^ (w - 1) := pow_le_pow_right₀ (by decide) (by omega)
  apply BitVec.toInt_ofInt_eq_self (by omega) <;> omega

theorem signExtend_int8 {x : ℤ} (hx : IsApInt 8 x) :
  (BitVec.ofInt 9 x).signExtend 18 = BitVec.ofInt 18 x
  := by
  apply BitVec.eq_of_toInt_eq
  rw [BitVec.toInt_signExtend_of_le (by decide), toInt_ofInt_int8 (by decide) hx,
    toInt_ofInt_int8 (by decide) hx]

theorem msb_int8 {x : ℤ} (hx : IsApInt 8 x) :
  (BitVec.ofInt 9 x).msb = decide (x < 0)
  := by
  rw [BitVec.msb_eq_toInt, toInt_ofInt_int8 (by decide) hx]

/-- The sign bits of a negative low weight cover the high weight. -/
theorem packedWeights_of_neg {wLo wHi : ℤ} (hlo : IsApInt 8 wLo) (hneg : wLo < 0) :
  (packedWeights wLo wHi).toInt = wLo
  := by
  have hcover : packedWeights wLo wHi = (BitVec.ofInt 9 wLo).signExtend 18 := by
    apply BitVec.eq_of_getLsbD_eq
    intro i hi
    rw [packedWeights, BitVec.getLsbD_or, BitVec.getLsbD_shiftLeft, BitVec.getLsbD_signExtend,
      msb_int8 hlo]
    rcases Nat.lt_or_ge i 9 with h | h
    · simp [h]
    · simp [hi, Nat.not_lt.mpr h, hneg]
  rw [hcover, signExtend_int8 hlo, toInt_ofInt_int8 (by decide) hlo]

/-- A low weight without a sign leaves the high one as it is. -/
theorem packedWeights_of_nonneg {wLo wHi : ℤ} (hlo : IsApInt 8 wLo) (hhi : IsApInt 8 wHi)
    (hpos : 0 ≤ wLo) :
  (packedWeights wLo wHi).toInt = wHi * 512 + wLo
  := by
  obtain ⟨hlow, hhigh⟩ := (isApInt_iff (by decide)).mp hlo
  obtain ⟨hlow', hhigh'⟩ := (isApInt_iff (by decide)).mp hhi
  have hdisjoint :
      BitVec.ofInt 18 wHi <<< 9 &&& (BitVec.ofInt 9 wLo).signExtend 18 = 0#18 := by
    apply BitVec.eq_of_getLsbD_eq
    intro i hi
    rw [BitVec.getLsbD_and, BitVec.getLsbD_shiftLeft, BitVec.getLsbD_signExtend, msb_int8 hlo]
    rcases Nat.lt_or_ge i 9 with h | h
    · simp [h]
    · simp [Nat.not_lt.mpr h, Int.not_lt.mpr hpos]
  have hshift : BitVec.ofInt 18 wHi <<< 9 = BitVec.ofInt 18 (wHi * 512) := by
    rw [BitVec.shiftLeft_eq_mul_twoPow, BitVec.ofInt_mul]
    rfl
  rw [packedWeights, ← BitVec.add_eq_or_of_and_eq_zero _ _ hdisjoint, hshift,
    signExtend_int8 hlo, ← BitVec.ofInt_add]
  apply BitVec.toInt_ofInt_eq_self (by decide) <;> omega

/-! ### The products -/

theorem int8_mul_bounds {x y : ℤ} (hx : IsApInt 8 x) (hy : IsApInt 8 y) :
  -2 ^ 14 ≤ x * y ∧ x * y ≤ 2 ^ 14
  := by
  obtain ⟨hlow, hhigh⟩ := (isApInt_iff (by decide)).mp hx
  obtain ⟨hlow', hhigh'⟩ := (isApInt_iff (by decide)).mp hy
  have hprod : |x * y| ≤ 2 ^ 7 * 2 ^ 7 := by
    rw [abs_mul]
    apply mul_le_mul (abs_le.mpr ⟨hlow, hhigh.le⟩) (abs_le.mpr ⟨hlow', hhigh'.le⟩) (abs_nonneg y)
    decide
  apply abs_le.mp hprod

/-- The bits from 9 on of a product that fits into the register, as an `INT16`. -/
theorem apInt_extract_high {x : ℤ} (h : -2 ^ 24 ≤ x) (h' : x < 2 ^ 24) :
  apInt 16 ((BitVec.ofInt 35 x).extractLsb' 9 18).toNat = x / 512
  := by
  simp only [BitVec.extractLsb'_toNat, BitVec.toNat_ofInt, Nat.shiftRight_eq_div_pow, apInt]
  omega

/-- The high product: none beside a negative low weight, and a carry from the low product. -/
theorem packMul2Int8_snd {wLo wHi a : ℤ} (hlo : IsApInt 8 wLo) (hhi : IsApInt 8 wHi)
    (ha : IsApInt 8 a) :
  (packMul2Int8 wLo wHi a).2 = (if wLo < 0 then 0 else wHi * a) + wLo * a / 512
  := by
  obtain ⟨hlow, hhigh⟩ := int8_mul_bounds hlo ha
  obtain ⟨hlow', hhigh'⟩ := int8_mul_bounds hhi ha
  rcases Int.lt_or_le wLo 0 with hneg | hpos
  · rw [packMul2Int8, packedWeights_of_neg hlo hneg, if_pos hneg, zero_add]
    apply apInt_extract_high <;> omega
  · have hsplit : (wHi * 512 + wLo) * a = wLo * a + wHi * a * 512 := by ring
    rw [packMul2Int8, packedWeights_of_nonneg hlo hhi hpos, if_neg (Int.not_lt.mpr hpos), hsplit,
      ← Int.add_comm (wLo * a / 512), ← Int.add_mul_ediv_right _ _ (by decide)]
    apply apInt_extract_high <;> omega

/-! ### Partial sums -/

/-- Values in the `INT8` registers of a tile. -/
structure Int8Tile where
  val : ℕ → ℕ → ℤ
  int8 : ∀ r k, IsApInt 8 (val r k)

/-- `mac_tile_shared`. -/
def macTileShared (act wgt psum : ℕ → ℕ → ℤ) : ℕ → ℕ → ℤ := w4a8MacUnit act wgt psum

/-- Two values agree in an `ap_int<w>` when they differ by a multiple of `2 ^ w`. -/
theorem apInt_eq_apInt_iff {w : ℕ} {x y : ℤ} :
  apInt w x = apInt w y ↔ 2 ^ w ∣ x - y
  := by
  have hdiff : x + 2 ^ (w - 1) - (y + 2 ^ (w - 1)) = x - y := by omega
  rw [apInt, apInt, sub_left_inj, Int.emod_eq_emod_iff_emod_sub_eq_zero, hdiff,
    Int.dvd_iff_emod_eq_zero]

/-- An accumulator that starts at `a` and wraps at each addition. -/
theorem foldl_apInt_add_succ (w : ℕ) (f : ℕ → ℤ) (a : ℤ) (n : ℕ) :
  (List.range (n + 1)).foldl (fun acc k => apInt w (acc + f k)) a
    = apInt w (a + ∑ k ∈ Finset.range (n + 1), f k)
  := by
  rw [← foldl_apInt_add_from, List.range_succ_eq_map, List.foldl_cons, List.foldl_cons,
    apInt_apInt_add]

section Tile

variable (act wgt : Int8Tile) (m n : ℕ)

/-- The sum of the products of row `m` and column `n`. -/
def groupSum : ℤ := ∑ k ∈ Finset.range kUnroll, wgt.val n k * act.val m k

/-- What the low products of the pair of column `n` carry beyond nine bits. -/
def carrySum : ℤ := ∑ k ∈ Finset.range kUnroll, wgt.val (n / 2 * 2) k * act.val m k / 512

/-- The products of column `n` beside a negative weight. -/
def coveredSum : ℤ :=
  ∑ k ∈ Finset.range kUnroll, if wgt.val (n - 1) k < 0 then wgt.val n k * act.val m k else 0

/-- What a partial sum lacks. -/
def packingLoss : ℤ :=
  if n % 2 = 0 then 512 * carrySum act wgt m n else coveredSum act wgt m n - carrySum act wgt m n

theorem w4a8MacUnit_eq_sub_loss (psum : ℕ → ℕ → ℤ) :
  w4a8MacUnit act.val wgt.val psum m n
    = apInt 32 (psum m n + (groupSum act wgt m n - packingLoss act wgt m n))
  := by
  have hsum : ∑ k ∈ Finset.range kUnroll, columnProduct wgt.val n k (act.val m k)
      = groupSum act wgt m n - packingLoss act wgt m n := by
    rcases Nat.mod_two_eq_zero_or_one n with h | h
    · have hself : n / 2 * 2 = n := by omega
      rw [packingLoss, if_pos h, groupSum, carrySum, hself, Finset.mul_sum,
        ← Finset.sum_sub_distrib]
      apply Finset.sum_congr rfl
      intro k _
      rw [columnProduct, if_pos h, Int.emod_def]
    · have hprev : n / 2 * 2 = n - 1 := by omega
      have hodd : ¬ n % 2 = 0 := by omega
      rw [packingLoss, if_neg hodd, groupSum, coveredSum, carrySum, hprev, ← sub_add,
        ← Finset.sum_sub_distrib, ← Finset.sum_add_distrib]
      apply Finset.sum_congr rfl
      intro k _
      rw [columnProduct, if_neg hodd, packMul2Int8_snd (wgt.int8 _ _) (wgt.int8 _ _) (act.int8 _ _)]
      split <;> ring
  rw [w4a8MacUnit_eq, ← hsum]
  apply foldl_apInt_add_succ

/-- A sum over a K-group of terms that are at most `b`. -/
theorem abs_groupSum_le {f : ℕ → ℤ} {b : ℤ} (h : ∀ k, |f k| ≤ b) :
  |∑ k ∈ Finset.range kUnroll, f k| ≤ 32 * b
  := by
  calc
    |∑ k ∈ Finset.range kUnroll, f k| ≤ ∑ k ∈ Finset.range kUnroll, |f k| :=
      Finset.abs_sum_le_sum_abs f _
    _ ≤ ∑ k ∈ Finset.range kUnroll, b := Finset.sum_le_sum fun k _ => h k
    _ = 32 * b := by
      rw [Finset.sum_const, Finset.card_range]
      rfl

theorem abs_carrySum_le :
  |carrySum act wgt m n| ≤ 32 * 32
  := by
  apply abs_groupSum_le
  intro k
  obtain ⟨hlow, hhigh⟩ := int8_mul_bounds (wgt.int8 (n / 2 * 2) k) (act.int8 m k)
  apply abs_le.mpr
  omega

theorem abs_coveredSum_le :
  |coveredSum act wgt m n| ≤ 32 * 2 ^ 14
  := by
  apply abs_groupSum_le
  intro k
  split
  · apply abs_le.mpr (int8_mul_bounds (wgt.int8 n k) (act.int8 m k))
  · decide

/-- A loss is too small to be a multiple of `2 ^ 32`. -/
theorem dvd_packingLoss_iff :
  2 ^ 32 ∣ packingLoss act wgt m n
    ↔ carrySum act wgt m n = if n % 2 = 0 then 0 else coveredSum act wgt m n
  := by
  have hcarry := abs_le.mp (abs_carrySum_le act wgt m n)
  have hcovered := abs_le.mp (abs_coveredSum_le act wgt m n)
  rw [packingLoss]
  split <;> omega

/-- For any tiles and any initial value, a partial sum is the sum of the products modulo
`2 ^ 32` when nothing is lost: in an even column, when what is carried beyond nine bits sums up
to zero; in an odd column, when it sums up to the products beside negative weights. -/
theorem macTileShared_exact_iff (psum : ℕ → ℕ → ℤ) :
  (macTileShared act.val wgt.val psum m n = apInt 32 (psum m n + groupSum act wgt m n)
      ↔ carrySum act wgt m n = if n % 2 = 0 then 0 else coveredSum act wgt m n)
    ∧ (w4a8MacUnit act.val wgt.val psum m n = apInt 32 (psum m n + groupSum act wgt m n)
      ↔ carrySum act wgt m n = if n % 2 = 0 then 0 else coveredSum act wgt m n)
  := by
  have hexact : w4a8MacUnit act.val wgt.val psum m n = apInt 32 (psum m n + groupSum act wgt m n)
      ↔ carrySum act wgt m n = if n % 2 = 0 then 0 else coveredSum act wgt m n := by
    have hloss : psum m n + (groupSum act wgt m n - packingLoss act wgt m n)
        - (psum m n + groupSum act wgt m n) = - packingLoss act wgt m n := by omega
    rw [w4a8MacUnit_eq_sub_loss, apInt_eq_apInt_iff, hloss, Int.dvd_neg, dvd_packingLoss_iff]
  exact ⟨hexact, hexact⟩

end Tile

/-- A tile whose first entry is `x`, and whose other entries are zero. -/
def cornerTile (x : ℤ) (hx : IsApInt 8 x) : Int8Tile where
  val r k := if r = 0 ∧ k = 0 then x else 0
  int8 r k := by
    split
    · apply hx
    · rfl

/-- A low weight of minus one, times one: the even column receives 511, and the odd one, whose
weight is zero, receives minus one. -/
theorem not_macTileShared_exact :
  let act := cornerTile 1 (by decide)
  let wgt := cornerTile (-1) (by decide)
  macTileShared act.val wgt.val (fun _ _ => 0) 0 0 ≠ apInt 32 (0 + groupSum act wgt 0 0)
    ∧ macTileShared act.val wgt.val (fun _ _ => 0) 0 1 ≠ apInt 32 (0 + groupSum act wgt 0 1)
    ∧ w4a8MacUnit act.val wgt.val (fun _ _ => 0) 0 0 ≠ apInt 32 (0 + groupSum act wgt 0 0)
  := by
  decide +kernel

end Kv260
