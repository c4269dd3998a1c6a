import SmolVlm2Kv260.FakeQuant.BlockFloat
import SmolVlm2Kv260.FakeQuant.Idempotent

/-!
# Zeros stay zero

A zero is a level of every uniform step, whatever its scale, and so it is not moved.  Of the
sums of powers of two it stays the nearest exactly when it is among those that the codebook
keeps.  The sums are symmetric, and zero is in their middle; but the sixteen entries of the
codebook of four bits are taken at equal distances from one end to the other, and miss it.
-/

set_option autoImplicit false

namespace Kv260

open Levels

/-! ### Codebooks -/

theorem nearestEntry_mem {codebook : List ℚ} (h : codebook ≠ []) (x : ℚ) :
  nearestEntry codebook x ∈ codebook
  := by
  rcases hmin : codebook.argmin fun entry => |x - entry| with _ | entry
  · exact absurd (List.argmin_eq_none.mp hmin) h
  · rw [nearestEntry, hmin, Option.getD_some]
    apply List.argmin_mem hmin

/-- An entry of the codebook is its own nearest one. -/
theorem nearestEntry_eq_self {codebook : List ℚ} {x : ℚ} (h : x ∈ codebook) :
  nearestEntry codebook x = x
  := by
  rcases hmin : codebook.argmin fun entry => |x - entry| with _ | entry
  · rw [List.argmin_eq_none.mp hmin] at h
    cases h
  · have hle := List.le_of_mem_argmin h hmin
    rw [sub_self, abs_zero, abs_nonpos_iff, sub_eq_zero] at hle
    rw [nearestEntry, hmin, Option.getD_some, hle]

theorem mem_apotValues {maxTerms maxShift : ℕ} {value : ℚ} :
  value ∈ apotValues maxTerms maxShift ↔ value ∈ apotMagnitudes maxTerms maxShift
  := by rw [apotValues, List.mem_insertionSort, List.mem_dedup]

theorem buildApotCodebook_ne_nil (bits maxTerms maxShift : ℕ) :
  buildApotCodebook bits maxTerms maxShift ≠ []
  := by
  rw [buildApotCodebook]
  split
  · have hpos : 0 < 2 ^ bits := Nat.two_pow_pos bits
    rw [ne_eq, List.map_eq_nil_iff, List.range_eq_nil]
    omega
  · have hzero : (0 : ℚ) ∈ apotValues maxTerms maxShift :=
      mem_apotValues.mpr List.mem_cons_self
    apply List.ne_nil_of_mem hzero

/-- A codebook that has room for all values has zero. -/
theorem zero_mem_buildApotCodebook {bits maxTerms maxShift : ℕ}
    (h : (apotMagnitudes maxTerms maxShift).length ≤ 2 ^ bits) :
  0 ∈ buildApotCodebook bits maxTerms maxShift
  := by
  have hlen : (apotValues maxTerms maxShift).length ≤ 2 ^ bits := by
    rw [apotValues, List.length_insertionSort]
    apply (List.dedup_sublist _).length_le.trans h
  rw [buildApotCodebook, if_neg hlen.not_gt, mem_apotValues]
  apply List.mem_cons_self

/-- The 79 values of two terms and shifts up to 6 leave no zero among 16 entries. -/
theorem zero_notMem_buildApotCodebook_four :
  0 ∉ buildApotCodebook 4 2 6
  := by decide +kernel

theorem zero_mem_buildApotCodebook_eight :
  0 ∈ buildApotCodebook 8 2 7
  := zero_mem_buildApotCodebook (by decide +kernel)

namespace Tensor

variable {x out : Tensor} {f : ℕ → ℚ}

/-- The elements of `x` that are zero are zero in `out`. -/
def ZerosStay (x out : Tensor) : Prop :=
  out.shape = x.shape ∧ ∀ i < x.shape.prod, x.flat i = 0 → out.flat i = 0

theorem zerosStay_reshapeAs_iff :
  x.ZerosStay (x.reshapeAs f) ↔ ∀ i < x.shape.prod, x.flat i = 0 → f i = 0
  := by
  constructor
  · rintro ⟨-, h⟩ i hi hzero
    rw [← flat_reshapeAs x f hi]
    apply h i hi hzero
  · intro h
    use rfl
    intro i hi hzero
    rw [flat_reshapeAs x f hi]
    apply h i hi hzero

/-! ### The quantisers -/

theorem zerosStay_w4 {groupSize : ℕ} (h : x.w4FakeQuant groupSize = .ok out) :
  x.ZerosStay out
  := by
  obtain ⟨outFeatures, inFeatures, -, -, -, rfl⟩ := w4FakeQuant_eq_ok h
  apply zerosStay_reshapeAs_iff.mpr
  intro i _ hzero
  apply w4FakeQuant_eq_zero
  rw [padRow, row, Nat.div_add_mod', hzero, ite_self]

theorem zerosStay_a8 (h : x.a8PerTokenFakeQuant = .ok out) :
  x.ZerosStay out
  := by
  rw [a8PerTokenFakeQuant] at h
  split at h
  · cases h
  · obtain rfl := Except.ok.inj h
    apply zerosStay_reshapeAs_iff.mpr
    intro i _ hzero
    rw [hzero]
    apply npRounding.quantise_zero (by decide) (by decide)

theorem zerosStay_bfp {blockSize mantissaLevels : ℕ}
    (h : x.bfpFakeQuant blockSize mantissaLevels = .ok out) :
  x.ZerosStay out
  := by
  rcases Nat.eq_zero_or_pos blockSize with rfl | hblock
  · cases h
  · rw [bfpFakeQuant_eq x hblock] at h
    obtain rfl := Except.ok.inj h
    apply zerosStay_reshapeAs_iff.mpr
    intro i _ hzero
    rw [bfpElement_eq_quantise, hzero]
    apply npRounding.quantise_zero (by omega) (by omega)

theorem apotScale_pos (x : Tensor) (i : ℕ) :
  0 < x.apotScale i
  := lt_of_lt_of_le (by norm_num) (le_max_right _ _)

/-- The zeros stay when the codebook has zero, and none of them does when it has not. -/
theorem zerosStay_apot_iff {bits maxTerms maxShift : ℕ}
    (h : x.apotFakeQuant bits maxTerms maxShift = .ok out) :
  x.ZerosStay out
    ↔ 0 ∈ buildApotCodebook bits maxTerms maxShift ∨ ∀ i < x.shape.prod, x.flat i ≠ 0
  := by
  rw [apotFakeQuant] at h
  split at h
  · cases h
  · obtain rfl := Except.ok.inj h
    rw [zerosStay_reshapeAs_iff]
    constructor
    · intro hstay
      rcases em (0 ∈ buildApotCodebook bits maxTerms maxShift) with hmem | hmem
      · exact .inl hmem
      · right
        intro i hi hzero
        have hout := hstay i hi hzero
        rw [hzero, zero_div] at hout
        rcases mul_eq_zero.mp hout with hentry | hscale
        · apply hmem
          rw [← hentry]
          apply nearestEntry_mem (buildApotCodebook_ne_nil bits maxTerms maxShift)
        · exact (x.apotScale_pos i).ne' hscale
    · rintro (hmem | hnone) i hi hzero
      · rw [hzero, zero_div, nearestEntry_eq_self hmem, zero_mul]
      · exact absurd hzero (hnone i hi)

/-- Whatever `quantize_tensor_by_format` returns, with 4 bits for `apot4` and 8 for `apot8`, the
zeros stay zero exactly when the format is another than `apot4` or there are none. -/
theorem zerosStay_iff {tensor out : Tensor} {fmt : String} {groupSize blockSize bits : ℕ}
    (hfour : fmt = "apot4" → bits = 4) (height : fmt = "apot8" → bits = 8)
    (h : tensor.quantizeTensorByFormat fmt groupSize blockSize bits = .ok out) :
  tensor.ZerosStay out ↔ fmt ≠ "apot4" ∨ ∀ i < tensor.shape.prod, tensor.flat i ≠ 0
  := by
  rw [quantizeTensorByFormat] at h
  split_ifs at h with hw4 ha8 hbfp hapot4 hapot8
  · have hne : fmt ≠ "apot4" := by
      rintro rfl
      revert hw4
      decide
    simp only [zerosStay_w4 h, hne, ne_eq, not_false_eq_true, true_or]
  · have hne : fmt ≠ "apot4" := by
      rintro rfl
      revert ha8
      decide
    simp only [zerosStay_a8 h, hne, ne_eq, not_false_eq_true, true_or]
  · have hne : fmt ≠ "apot4" := by
      rintro rfl
      revert hbfp
      decide
    simp only [zerosStay_bfp h, hne, ne_eq, not_false_eq_true, true_or]
  · rw [hfour hapot4] at h
    rw [zerosStay_apot_iff h]
    simp only [zero_notMem_buildApotCodebook_four, hapot4, ne_eq, not_true_eq_false, false_or]
  · rw [height hapot8] at h
    rw [zerosStay_apot_iff h]
    simp only [zero_mem_buildApotCodebook_eight, hapot4, ne_eq, not_false_eq_true, true_or]

/-- A zero of eight bits stays. -/
theorem zerosStay_apot8_single :
  ∃ out, (single 0).quantizeTensorByFormat "apot8" 32 16 8 = .ok out ∧ (single 0).ZerosStay out
  := by
  have hout : ∃ out, (single 0).quantizeTensorByFormat "apot8" 32 16 8 = .ok out := ⟨_, rfl⟩
  obtain ⟨out, hout⟩ := hout
  use out, hout
  apply (zerosStay_iff (by decide) (by decide) hout).mpr
  left
  decide

/-- A zero of four bits does not. -/
theorem not_zerosStay_apot4_single :
  ∃ out, (single 0).quantizeTensorByFormat "apot4" 32 16 4 = .ok out
    ∧ (single 0).flat 0 = 0 ∧ out.flat 0 ≠ 0
  := by
  have hout : ∃ out, (single 0).apotFakeQuant 4 2 6 = .ok out := ⟨_, rfl⟩
  obtain ⟨out, hout⟩ := hout
  refine ⟨out, hout, rfl, ?_⟩
  intro hzero
  have hstay : (single 0).ZerosStay out := by
    rw [apotFakeQuant, if_neg (by decide)] at hout
    obtain rfl := Except.ok.inj hout
    use rfl
    intro i hi _
    obtain rfl := Nat.lt_one_iff.mp hi
    exact hzero
  rcases (zerosStay_apot_iff hout).mp hstay with hmem | hnone
  · exact zero_notMem_buildApotCodebook_four hmem
  · exact hnone 0 Nat.one_pos rfl

end Tensor

end Kv260
