import Mathlib.Analysis.Real.Sqrt
import SmolVlm2Kv260.Kernel.RmsNorm

/-!
# The reciprocal root

`approx_rsqrt_q15` depends on the position of the highest one of its argument and on the six bits
below it.  Arguments that have these in common form a cell.  The value of a cell is compared with
the reciprocal roots of its ends, and with the value of the next cell.
-/

set_option autoImplicit false

namespace Kv260

/-! ### Cells -/

/-- The cell of `x`: 64 times the position of its highest one, and the six bits below it. -/
def rsqrtCell (x : ℕ) : ℕ := 64 * x.log2 + (64 * x / 2 ^ x.log2 - 64)

/-- The value on a cell. -/
def rsqrtOfCell (cell : ℕ) : ℤ :=
  let value := kRsqrtLutQ15.getD (cell % 64) 0
  let value := if cell / 64 % 2 = 1 then (value * q15InvSqrt2) >>> (15 : ℕ) else value
  max (value >>> (cell / 64 / 2)) 1

theorem rsqrtOfCell_succ_le :
  ∀ e < 32, ∀ i < 64, 64 * e + i < 2047 →
    rsqrtOfCell (64 * e + i + 1) ≤ rsqrtOfCell (64 * e + i)
  := by
  decide +kernel

theorem rsqrtOfCell_accurate :
  ∀ e < 32, 1 ≤ e → ∀ i < 64,
    99 ^ 2 * 2 ^ 30 * 64 ≤ 100 ^ 2 * (rsqrtOfCell (64 * e + i) + 2) ^ 2 * ((64 + i) * 2 ^ e) ∧
    (rsqrtOfCell (64 * e + i) ≤ 2 ∨
      100 ^ 2 * (rsqrtOfCell (64 * e + i) - 2) ^ 2 * ((65 + i) * 2 ^ e) ≤ 101 ^ 2 * 2 ^ 30 * 64)
  := by
  decide +kernel

/-- The values of the cells decrease. -/
theorem rsqrtOfCell_antitone {c c' : ℕ} (h : c ≤ c') (h' : c' < 2048) :
  rsqrtOfCell c' ≤ rsqrtOfCell c
  := by
  induction c', h using Nat.le_induction with
  | base => rfl
  | succ c' _ ih =>
    have step := rsqrtOfCell_succ_le (c' / 64) (by omega) (c' % 64) (by omega)
    rw [Nat.div_add_mod] at step
    exact le_trans (step (by omega)) (ih (by omega))

/-! ### The cell of an argument -/

/-- The seven leading bits of `x`. -/
theorem normQ6_eq (x : ℕ) :
  (if 6 ≤ u32MsbIndex x then x >>> (u32MsbIndex x - 6) else x <<< (6 - u32MsbIndex x))
    = 64 * x / 2 ^ x.log2
  := by
  rw [u32MsbIndex]
  split
  case isTrue h =>
    have split_pow : 2 ^ x.log2 = 2 ^ 6 * 2 ^ (x.log2 - 6) := by
      rw [← pow_add, Nat.add_sub_cancel' h]
    rw [Nat.shiftRight_eq_div_pow, split_pow]
    exact (Nat.mul_div_mul_left _ _ (by decide)).symm
  case isFalse h =>
    have split_pow : 2 ^ (6 - x.log2) * 2 ^ x.log2 = 64 := by
      rw [← pow_add, Nat.sub_add_cancel (by omega)]
      rfl
    rw [Nat.shiftLeft_eq, ← split_pow, mul_right_comm, Nat.mul_div_cancel _ (Nat.two_pow_pos _),
      mul_comm]

section Cell

variable {x : ℕ} (hx : 2 ≤ x)

include hx

theorem leading_mem :
  64 ≤ 64 * x / 2 ^ x.log2 ∧ 64 * x / 2 ^ x.log2 ≤ 127
  := by
  have low := Nat.log2_self_le (n := x) (by omega)
  have high := Nat.lt_log2_self (n := x)
  rw [pow_succ] at high
  constructor
  · rw [Nat.le_div_iff_mul_le (Nat.two_pow_pos _)]
    omega
  · apply Nat.le_of_lt_succ
    rw [Nat.div_lt_iff_lt_mul (Nat.two_pow_pos _)]
    omega

theorem rsqrtCell_div_mod :
  rsqrtCell x / 64 = x.log2 ∧ rsqrtCell x % 64 = 64 * x / 2 ^ x.log2 - 64
  := by
  obtain ⟨low, high⟩ := leading_mem hx
  rw [rsqrtCell]
  omega

/-- The leading bits are those that select the table entry. -/
theorem rsqrtMantissa_eq_leading :
  rsqrtMantissa x = if x.log2 % 2 = 1
    then (kRsqrtLutQ15.getD (64 * x / 2 ^ x.log2 - 64) 0 * q15InvSqrt2) >>> (15 : ℕ)
    else kRsqrtLutQ15.getD (64 * x / 2 ^ x.log2 - 64) 0
  := by
  obtain ⟨low, high⟩ := leading_mem hx
  rw [rsqrtMantissa]
  simp only [normQ6_eq x, max_eq_left low, min_eq_left high]
  rfl

theorem rsqrtValue_eq_ofCell :
  rsqrtValue x = rsqrtOfCell (rsqrtCell x)
  := by
  obtain ⟨exponent, bits⟩ := rsqrtCell_div_mod hx
  rw [rsqrtValue, if_neg (by omega), rsqrtMantissa_eq_leading hx, rsqrtOfCell, bits, exponent]
  rfl

/-- The ends of the cell of `x`. -/
theorem mem_cell :
  (64 + rsqrtCell x % 64) * 2 ^ (rsqrtCell x / 64) ≤ 64 * x ∧
    64 * x ≤ (65 + rsqrtCell x % 64) * 2 ^ (rsqrtCell x / 64)
  := by
  obtain ⟨low, _⟩ := leading_mem hx
  obtain ⟨exponent, bits⟩ := rsqrtCell_div_mod hx
  have first : 64 + (64 * x / 2 ^ x.log2 - 64) = 64 * x / 2 ^ x.log2 := by omega
  have last : 65 + (64 * x / 2 ^ x.log2 - 64) = 64 * x / 2 ^ x.log2 + 1 := by omega
  rw [bits, exponent, first, last]
  constructor
  · apply Nat.div_mul_le_self
  · rw [mul_comm (_ + 1)]
    exact (Nat.lt_mul_div_succ (64 * x) (Nat.two_pow_pos x.log2)).le

theorem rsqrtCell_lt (h : x < 2 ^ 32) :
  64 ≤ rsqrtCell x ∧ rsqrtCell x < 2048
  := by
  obtain ⟨low, high⟩ := leading_mem hx
  have exponent_pos : 1 ≤ x.log2 := (Nat.le_log2 (by omega)).mpr hx
  have exponent_lt : x.log2 < 32 := (Nat.log2_lt (by omega)).mpr h
  rw [rsqrtCell]
  omega

theorem rsqrtCell_mono {y : ℕ} (h : x ≤ y) :
  rsqrtCell x ≤ rsqrtCell y
  := by
  obtain ⟨low, high⟩ := leading_mem hx
  obtain ⟨low', high'⟩ := leading_mem (le_trans hx h)
  have exponents : x.log2 ≤ y.log2 :=
    (Nat.le_log2 (by omega)).mpr (le_trans (Nat.log2_self_le (by omega)) h)
  rw [rsqrtCell, rsqrtCell]
  rcases exponents.eq_or_lt with same | less
  · have leading : 64 * x / 2 ^ x.log2 ≤ 64 * y / 2 ^ y.log2 := by
      rw [same]
      apply Nat.div_le_div_right
      omega
    omega
  · omega

end Cell

/-! ### Monotonicity and accuracy -/

theorem div_sqrt_le {a b x : ℝ} (hb : 0 ≤ b) (hx : 0 < x) (h : a ^ 2 ≤ b ^ 2 * x) :
  a / √x ≤ b
  := by
  rw [div_le_iff₀ (Real.sqrt_pos.mpr hx)]
  apply le_of_abs_le
  apply abs_le_of_sq_le_sq _ (mul_nonneg hb (Real.sqrt_nonneg x))
  rwa [mul_pow, Real.sq_sqrt hx.le]

theorem le_div_sqrt {a b x : ℝ} (ha : 0 ≤ a) (hx : 0 < x) (h : b ^ 2 * x ≤ a ^ 2) :
  b ≤ a / √x
  := by
  rw [le_div_iff₀ (Real.sqrt_pos.mpr hx)]
  apply le_of_abs_le
  apply abs_le_of_sq_le_sq _ ha
  rwa [mul_pow, Real.sq_sqrt hx.le]

theorem rsqrtValue_antitone {x y : ℕ} (hx : 1 ≤ x) (hxy : x ≤ y) (hy : y < 2 ^ 32) :
  rsqrtValue y ≤ rsqrtValue x
  := by
  rcases Nat.lt_or_ge x 2 with one | two
  · have largest : rsqrtValue x = 32767 := by
      rw [rsqrtValue, if_pos (by omega)]
      rfl
    rw [largest]
    exact (rsqrtValue_mem y).2
  · have two' := le_trans two hxy
    rw [rsqrtValue_eq_ofCell two, rsqrtValue_eq_ofCell two']
    exact rsqrtOfCell_antitone (rsqrtCell_mono two hxy) (rsqrtCell_lt two' hy).2

/-- The squares of the value, two more and two less, on the cell of `x`. -/
theorem rsqrtValue_sq {x : ℕ} (hx : 2 ≤ x) (h : x < 2 ^ 32) :
  99 ^ 2 * 2 ^ 30 ≤ 100 ^ 2 * (rsqrtValue x + 2) ^ 2 * x ∧
    (rsqrtValue x ≤ 2 ∨ 100 ^ 2 * (rsqrtValue x - 2) ^ 2 * x ≤ 101 ^ 2 * 2 ^ 30)
  := by
  obtain ⟨first, last⟩ := mem_cell hx
  obtain ⟨low, high⟩ := rsqrtCell_lt hx h
  have accurate := rsqrtOfCell_accurate (rsqrtCell x / 64) (by omega) (by omega)
    (rsqrtCell x % 64) (by omega)
  rw [Nat.div_add_mod, ← rsqrtValue_eq_ofCell hx] at accurate
  generalize rsqrtCell x % 64 = i at *
  generalize rsqrtCell x / 64 = e at *
  generalize rsqrtValue x = v at *
  obtain ⟨lower, upper⟩ := accurate
  have first' : ((64 + i : ℤ) * 2 ^ e) ≤ 64 * x := by exact_mod_cast first
  have last' : (64 * x : ℤ) ≤ (65 + i) * 2 ^ e := by exact_mod_cast last
  constructor
  · have scaled := mul_le_mul_of_nonneg_left first' (show 0 ≤ 100 ^ 2 * (v + 2) ^ 2 by positivity)
    linarith
  · rcases upper with small | upper
    · exact .inl small
    · right
      have scaled := mul_le_mul_of_nonneg_left last'
        (show 0 ≤ 100 ^ 2 * (v - 2) ^ 2 by positivity)
      linarith

/-- `approx_rsqrt_q15` decreases, is positive, and is within one per cent and two units of the
reciprocal root. -/
theorem approxRsqrtQ15_accurate {x y : ℕ} (hx : 1 ≤ x) (hxy : x ≤ y) (hy : y < 2 ^ 32) :
  approxRsqrtQ15 y ≤ approxRsqrtQ15 x ∧
    (1 ≤ approxRsqrtQ15 x ∧ approxRsqrtQ15 x ≤ 32767) ∧
    0.99 * 2 ^ 15 / √x - 2 ≤ (approxRsqrtQ15 x : ℝ) ∧
    (approxRsqrtQ15 x : ℝ) ≤ 1.01 * 2 ^ 15 / √x + 2
  := by
  have positive := rsqrtValue_mem x
  rw [approxRsqrtQ15_eq, approxRsqrtQ15_eq]
  refine ⟨rsqrtValue_antitone hx hxy hy, positive, ?_⟩
  rcases Nat.lt_or_ge x 2 with one | two
  · obtain rfl : x = 1 := by omega
    have largest : rsqrtValue 1 = 32767 := rfl
    rw [largest]
    norm_num
  · obtain ⟨lower, upper⟩ := rsqrtValue_sq two (lt_of_le_of_lt hxy hy)
    have x_pos : (0 : ℝ) < x := by exact_mod_cast hx
    have positive' : (1 : ℝ) ≤ rsqrtValue x := by exact_mod_cast positive.1
    constructor
    · rw [sub_le_iff_le_add]
      apply div_sqrt_le (by linarith) x_pos
      have lower' : (99 ^ 2 * 2 ^ 30 : ℝ) ≤ 100 ^ 2 * (rsqrtValue x + 2) ^ 2 * x := by
        exact_mod_cast lower
      linarith
    · rw [← sub_le_iff_le_add]
      rcases upper with small | upper
      · have small' : (rsqrtValue x : ℝ) ≤ 2 := by exact_mod_cast small
        apply le_trans (sub_nonpos.mpr small')
        positivity
      · apply le_div_sqrt (by norm_num) x_pos
        have upper' : 100 ^ 2 * (rsqrtValue x - 2 : ℝ) ^ 2 * x ≤ 101 ^ 2 * 2 ^ 30 := by
          exact_mod_cast upper
        linarith

/-- Three times as large an argument. -/
theorem approxRsqrtQ15_accurate_three :
  approxRsqrtQ15 3 ≤ approxRsqrtQ15 1 ∧ approxRsqrtQ15 3 = 18868
  := ⟨(approxRsqrtQ15_accurate (x := 1) (y := 3) le_rfl (by decide) (by decide)).1, by
    decide +kernel⟩

end Kv260
