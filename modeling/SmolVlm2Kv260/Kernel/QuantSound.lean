import Mathlib.Algebra.Order.Ring.Abs
import Mathlib.Data.List.GetD
import SmolVlm2Kv260.Kernel.Quant
import SmolVlm2Kv260.Process.Blocks

/-!
# Sound scales and codes

The quantisers take the largest absolute value of a row, divide it by 127 and add one; the scale
is what an `INT8` holds of this, and the codes are what an `INT8` holds of the values divided by
the scale.  Nothing keeps a row from values for which either does not fit: scale and codes are
sound exactly when no value exceeds `soundMax`.
-/

set_option autoImplicit false

namespace Kv260

open Blocks

/-! ### Sound rows -/

/-- The largest value whose row has a scale that an `INT8` holds. -/
def soundMax : ℤ := 127 * 127 - 1

/-- The codes that are written for a row. -/
def quantCodes (row : List ℤ) : List ℤ :=
  row.map fun x => apInt 8 (x.tdiv (tokScale row))

/-- A scale that can be divided by and that an `INT8` holds, and codes that give back the values
of the row up to less than the scale. -/
structure SoundRow (row : List ℤ) (scale : ℤ) (codes : List ℤ) : Prop where
  scale_pos : 1 ≤ scale
  scale_le : scale ≤ 127
  length_codes : codes.length = row.length
  int8_codes : ∀ q ∈ codes, IsApInt 8 q
  error_lt : ∀ c < row.length, |row.getD c 0 - codes.getD c 0 * scale| < scale

/-- A value is given back by its quotient up to less than the divisor. -/
theorem abs_sub_tdiv_mul_lt (x : ℤ) {s : ℤ} (hs : 0 < s) :
  |x - x.tdiv s * s| < s
  := by
  rw [mul_comm, ← Int.tmod_def]
  apply abs_lt.mpr ⟨Int.lt_tmod_of_pos x hs, Int.tmod_lt_of_pos x hs⟩

/-- A small value fits into a code. -/
theorem isApInt_tdiv {x s : ℤ} (hs : 0 < s) (h : |x| < 127 * s) :
  IsApInt 8 (x.tdiv s)
  := by
  obtain ⟨hlow, hhigh⟩ := abs_lt.mp h
  obtain ⟨herrLow, herrHigh⟩ := abs_lt.mp (abs_sub_tdiv_mul_lt x hs)
  have hlt : x.tdiv s * s < 128 * s := by omega
  have hgt : -128 * s < x.tdiv s * s := by omega
  apply (isApInt_iff (by decide)).mpr
  constructor
  · apply le_of_lt (lt_of_mul_lt_mul_right hgt hs.le)
  · apply lt_of_mul_lt_mul_right hlt hs.le

/-! ### The largest absolute value -/

theorem absI32_eq {x : ℤ} (h : |x| < 2 ^ 31) :
  absI32 x = |x|
  := by
  obtain ⟨hlow, hhigh⟩ := abs_lt.mp h
  rw [absI32]
  split
  · rename_i hneg
    rw [abs_of_neg hneg]
    apply apInt_of_mem (by decide) <;> omega
  · rename_i hpos
    rw [abs_of_nonneg (Int.not_lt.mp hpos)]

theorem absmax_nonneg (row : List ℤ) :
  0 ≤ absmax row
  := le_foldl_max absI32 row 0

theorem absmax_le_iff {row : List ℤ} {b : ℤ} (hb : 0 ≤ b) :
  absmax row ≤ b ↔ ∀ x ∈ row, absI32 x ≤ b
  := by
  rw [absmax, foldl_max_le_iff]
  apply and_iff_right hb

theorem absI32_le_absmax {row : List ℤ} {x : ℤ} (hx : x ∈ row) :
  absI32 x ≤ absmax row
  := le_foldl_max_of_mem absI32 hx 0

/-! ### Which rows are sound -/

variable {row : List ℤ}

/-- The scale of a row that has one. -/
theorem tokScale_eq (h : absmax row ≤ soundMax) :
  tokScale row = absmax row / 127 + 1
  := by
  have hnonneg := absmax_nonneg row
  rw [soundMax] at h
  rw [tokScale, Int.tdiv_eq_ediv_of_nonneg hnonneg]
  apply apInt_of_mem (by decide) <;> omega

theorem soundRow_of_le (h : ∀ x ∈ row, |x| ≤ soundMax) :
  SoundRow row (tokScale row) (quantCodes row)
  := by
  have habs : ∀ x ∈ row, absI32 x = |x| := by
    intro x hx
    apply absI32_eq
    apply lt_of_le_of_lt (h x hx)
    decide
  have hmax : absmax row ≤ soundMax := by
    apply (absmax_le_iff (by decide)).mpr
    intro x hx
    rw [habs x hx]
    apply h x hx
  have hscale := tokScale_eq hmax
  have hnonneg := absmax_nonneg row
  have hpos : 0 < tokScale row := by omega
  have hcode : ∀ x ∈ row, apInt 8 (x.tdiv (tokScale row)) = x.tdiv (tokScale row) := by
    intro x hx
    apply isApInt_tdiv hpos
    rw [← habs x hx]
    have hle := absI32_le_absmax hx
    omega
  constructor
  · omega
  · rw [soundMax] at hmax
    omega
  · apply List.length_map
  · intro q hq
    obtain ⟨x, -, rfl⟩ := List.mem_map.mp hq
    apply isApInt_apInt (by decide)
  · intro c hc
    rw [quantCodes, List.getD_eq_getElem _ _ hc,
      List.getD_eq_getElem _ _ (by rwa [List.length_map]), List.getElem_map,
      hcode _ (List.getElem_mem hc)]
    apply abs_sub_tdiv_mul_lt _ hpos

/-- A value that a sound code gives back has at most 14 bits. -/
theorem abs_lt_of_soundRow {scale : ℤ} {codes : List ℤ} (h : SoundRow row scale codes) :
  ∀ x ∈ row, |x| < 2 ^ 14
  := by
  obtain ⟨hpos, hle, hlen, hint, herr⟩ := h
  intro x hx
  obtain ⟨c, hc, rfl⟩ := List.getElem_of_mem hx
  have hmem : codes.getD c 0 ∈ codes := by
    rw [List.getD_eq_getElem _ _ (by rwa [hlen])]
    apply List.getElem_mem
  have hx' := herr c hc
  have hprod : |codes.getD c 0 * scale| ≤ 128 * 127 := by
    obtain ⟨hlow, hhigh⟩ := (isApInt_iff (by decide)).mp (hint _ hmem)
    rw [abs_mul]
    apply mul_le_mul (abs_le.mpr ⟨hlow, by omega⟩) _ (abs_nonneg _) (by decide)
    apply abs_le.mpr
    omega
  rw [List.getD_eq_getElem _ _ hc] at hx'
  rw [abs_lt] at hx' ⊢
  rw [abs_le] at hprod
  omega

theorem le_soundMax_of_soundRow (h : SoundRow row (tokScale row) (quantCodes row)) :
  ∀ x ∈ row, |x| ≤ soundMax
  := by
  have hsmall := abs_lt_of_soundRow h
  obtain ⟨hpos, hle, -⟩ := h
  have habs : ∀ x ∈ row, absI32 x = |x| := by
    intro x hx
    apply absI32_eq (lt_trans (hsmall x hx) _)
    decide
  have hmax : absmax row ≤ soundMax := by
    have hlt : absmax row ≤ 2 ^ 14 - 1 := by
      apply (absmax_le_iff (by decide)).mpr
      intro x hx
      have hx' := hsmall x hx
      rw [habs x hx]
      omega
    have hnonneg := absmax_nonneg row
    rw [tokScale, Int.tdiv_eq_ediv_of_nonneg hnonneg, apInt] at hpos hle
    rw [soundMax]
    omega
  intro x hx
  rw [← habs x hx]
  apply le_trans (absI32_le_absmax hx) hmax

/-- A row has a sound scale and sound codes when none of its values exceeds `soundMax`. -/
theorem soundRow_iff :
  SoundRow row (tokScale row) (quantCodes row) ↔ ∀ x ∈ row, |x| ≤ soundMax
  := ⟨le_soundMax_of_soundRow, soundRow_of_le⟩

end Kv260
