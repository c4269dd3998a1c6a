import Mathlib.Algebra.Order.Ring.Int
import Mathlib.Data.Int.Basic
import Mathlib.Data.List.Chain
import Mathlib.Data.List.GetD
import Mathlib.Tactic.Linarith

/-!
# Interpolated tables

An integer function is tabled at the multiples of a step.  Between two of them it is interpolated
linearly and rounded to an integer: down, after `offset` of the step is added.  The interpolated
values lie between the two entries, and they increase where the entries do.
-/

set_option autoImplicit false

namespace Interpolation

/-- The fraction `frac` of `step` of the way along a rise, rounded. -/
def part (step : ℕ) (offset rise : ℤ) (frac : ℕ) : ℤ := (rise * frac + offset) / step

/-- The table at `x`, which lies between the entries `x / step` and `x / step + 1`. -/
def interpolate (table : ℕ → ℤ) (step : ℕ) (offset : ℤ) (x : ℕ) : ℤ :=
  table (x / step)
    + part step offset (table (x / step + 1) - table (x / step)) (x % step)

/-! ### Tables in lists -/

theorem getD_le_getD_succ {l : List ℤ} (h : l.IsChain (· ≤ ·)) {i : ℕ} (hi : i + 1 < l.length) :
  l.getD i 0 ≤ l.getD (i + 1) 0
  := by
  rw [List.getD_eq_getElem _ _ (Nat.lt_of_succ_lt hi), List.getD_eq_getElem _ _ hi]
  exact List.isChain_iff_getElem.mp h i hi

variable {step : ℕ} {offset : ℤ} (hoffset : 0 ≤ offset ∧ offset < step)

include hoffset

/-! ### Part of a rise -/

theorem part_zero (rise : ℤ) :
  part step offset rise 0 = 0
  := by
  rw [part, Nat.cast_zero, mul_zero, zero_add]
  exact Int.ediv_eq_zero_of_lt hoffset.1 hoffset.2

theorem part_mono {rise : ℤ} (hrise : 0 ≤ rise) {frac frac' : ℕ} (h : frac ≤ frac') :
  part step offset rise frac ≤ part step offset rise frac'
  := by
  have along : rise * frac ≤ rise * frac' :=
    mul_le_mul_of_nonneg_left (Int.ofNat_le.mpr h) hrise
  apply Int.ediv_le_ediv <;> omega

/-- Part of a rise is no fall, and not more than the whole rise. -/
theorem part_mem_of_nonneg {rise : ℤ} (hrise : 0 ≤ rise) {frac : ℕ} (hfrac : frac < step) :
  0 ≤ part step offset rise frac ∧ part step offset rise frac ≤ rise
  := by
  constructor
  · rw [← part_zero hoffset rise]
    apply part_mono hoffset hrise (Nat.zero_le frac)
  · have along : rise * frac ≤ rise * step :=
      mul_le_mul_of_nonneg_left (by omega) hrise
    apply Int.le_of_lt_add_one
    apply Int.ediv_lt_of_lt_mul (by omega)
    rw [add_mul, one_mul]
    omega

/-- Part of a fall is no rise, and not more than the whole fall. -/
theorem part_mem_of_nonpos {rise : ℤ} (hrise : rise ≤ 0) {frac : ℕ} (hfrac : frac < step) :
  rise ≤ part step offset rise frac ∧ part step offset rise frac ≤ 0
  := by
  constructor
  · have along : rise * step ≤ rise * frac :=
      mul_le_mul_of_nonpos_left (by omega) hrise
    apply (Int.le_ediv_iff_mul_le (by omega)).mpr
    omega
  · have along : rise * frac ≤ 0 := mul_nonpos_of_nonpos_of_nonneg hrise (Nat.cast_nonneg frac)
    apply Int.le_of_lt_add_one
    apply Int.ediv_lt_of_lt_mul (by omega)
    omega

/-! ### Interpolated values -/

variable {table : ℕ → ℤ} {x : ℕ}

/-- An entry of the table is what is found at its place. -/
theorem interpolate_mul (i : ℕ) :
  interpolate table step offset (i * step) = table i
  := by
  rw [interpolate, Nat.mul_mod_left, Nat.mul_div_cancel i (by omega), part_zero hoffset, add_zero]

/-- An interpolated value is within the bounds of the two entries. -/
theorem interpolate_mem {low high : ℤ} (h : low ≤ table (x / step) ∧ table (x / step) ≤ high)
    (h' : low ≤ table (x / step + 1) ∧ table (x / step + 1) ≤ high) :
  low ≤ interpolate table step offset x ∧ interpolate table step offset x ≤ high
  := by
  have hfrac : x % step < step := Nat.mod_lt x (by omega)
  rw [interpolate]
  rcases le_total 0 (table (x / step + 1) - table (x / step)) with rises | falls
  · have inside := part_mem_of_nonneg hoffset rises hfrac
    omega
  · have inside := part_mem_of_nonpos hoffset falls hfrac
    omega

/-- The interpolated values increase up to `n` steps if the entries do. -/
theorem interpolate_mono {n : ℕ} (htable : ∀ i < n, table i ≤ table (i + 1)) {y : ℕ} (h : x ≤ y)
    (hy : y < n * step) :
  interpolate table step offset x ≤ interpolate table step offset y
  := by
  have hstep : 0 < step := by omega
  have cell : y / step < n := (Nat.div_lt_iff_lt_mul hstep).mpr hy
  rcases (Nat.div_le_div_right (c := step) h).eq_or_lt with same | next
  · -- along one rise
    have hfrac : x % step ≤ y % step := by
      have hx := Nat.div_add_mod x step
      have hy := Nat.div_add_mod y step
      rw [same] at hx
      omega
    have rises : 0 ≤ table (y / step + 1) - table (y / step) := by
      have := htable (y / step) cell
      omega
    rw [interpolate, interpolate, same]
    apply Int.add_le_add_left
    apply part_mono hoffset rises hfrac
  · -- from one rise to a later one
    have entries : ∀ i j, i ≤ j → j < n → table i ≤ table j := by
      intro i j hij
      induction j, hij using Nat.le_induction with
      | base => exact fun _ => le_rfl
      | succ j _ ih => exact fun hj => le_trans (ih (by omega)) (htable j (by omega))
    have rise := htable (x / step) (by omega)
    have rise' := htable (y / step) cell
    have upto : interpolate table step offset x ≤ table (x / step + 1) :=
      (interpolate_mem hoffset ⟨le_rfl, rise⟩ ⟨rise, le_rfl⟩).2
    have beyond : table (y / step) ≤ interpolate table step offset y :=
      (interpolate_mem hoffset ⟨le_rfl, rise'⟩ ⟨rise', le_rfl⟩).1
    exact le_trans upto (le_trans (entries _ _ next cell) beyond)

end Interpolation
