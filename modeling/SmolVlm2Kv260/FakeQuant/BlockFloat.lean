import SmolVlm2Kv260.FakeQuant.Formats

/-!
# Block floating point

The elements of a block share an exponent `e`, the one of its largest absolute value, which lies
between `2 ^ e` and `2 ^ (e + 1)`.  The mantissas are clamped to the levels that divide `2 ^ e`,
so that the block is rounded to the nearest level only as far as its elements reach half a level
beyond `2 ^ e`.
-/

set_option autoImplicit false

namespace Kv260

open Levels Blocks

namespace Tensor

variable {x : Tensor} {blockSize mantissaLevels b i : ℕ}

/-- The largest absolute value of block `b`. -/
def blockAbs (x : Tensor) (blockSize b : ℕ) : ℚ :=
  absMax blockSize fun j => x.flat (b * blockSize + j)

/-- Above the floor, the exponent is that of the largest absolute value. -/
theorem sharedExp_eq (h : 2 ^ (-16 : ℤ) ≤ x.blockAbs blockSize b) :
  x.sharedExp blockSize b = Int.log 2 (x.blockAbs blockSize b)
  := by rw [sharedExp, bfpMaxAbs, ← blockAbs, max_eq_left h]

/-- Element `i` of what `bfp_fake_quant` returns. -/
def bfpElement (x : Tensor) (blockSize mantissaLevels i : ℕ) : ℚ :=
  npClip (-mantissaLevels) mantissaLevels
      (npRound (x.flat i / 2 ^ x.sharedExp blockSize (i / blockSize) * mantissaLevels))
    / mantissaLevels * 2 ^ x.sharedExp blockSize (i / blockSize)

theorem bfpFakeQuant_eq (x : Tensor) (hblock : 0 < blockSize) (mantissaLevels : ℕ) :
  x.bfpFakeQuant blockSize mantissaLevels
    = .ok (x.reshapeAs (x.bfpElement blockSize mantissaLevels))
  := if_neg hblock.ne'

/-- The elements are multiples of the mantissa step, up to the level count on either side. -/
theorem bfpElement_eq_quantise (x : Tensor) (blockSize mantissaLevels i : ℕ) :
  x.bfpElement blockSize mantissaLevels i
    = npRounding.quantise (-mantissaLevels) mantissaLevels
      (2 ^ x.sharedExp blockSize (i / blockSize) / mantissaLevels) (x.flat i)
  := by
  have hquotient : x.flat i / (2 ^ x.sharedExp blockSize (i / blockSize) / mantissaLevels)
      = x.flat i / 2 ^ x.sharedExp blockSize (i / blockSize) * mantissaLevels := by
    rw [div_div_eq_mul_div, mul_div_right_comm]
  rw [Rounding.quantise, hquotient, ← mul_div_assoc, mul_div_right_comm]
  rfl

/-- An element is off by at most half a mantissa step exactly when it is no more than half a
step beyond the power of two. -/
theorem abs_bfpElement_sub_le_iff (hlevels : 0 < mantissaLevels)
    (h : 2 ^ (-16 : ℤ) ≤ x.blockAbs blockSize (i / blockSize)) :
  |x.bfpElement blockSize mantissaLevels i - x.flat i|
      ≤ 2 ^ Int.log 2 (x.blockAbs blockSize (i / blockSize)) / (2 * mantissaLevels)
    ↔ |x.flat i| ≤ 2 ^ Int.log 2 (x.blockAbs blockSize (i / blockSize))
      * (1 + 1 / (2 * mantissaLevels))
  := by
  have hL : (0 : ℚ) < mantissaLevels := by exact_mod_cast hlevels
  have hpow : (0 : ℚ) < 2 ^ Int.log 2 (x.blockAbs blockSize (i / blockSize)) :=
    zpow_pos two_pos _
  have hstep := div_pos hpow hL
  have horder : (-mantissaLevels : ℤ) ≤ mantissaLevels := by omega
  have hiff := npRounding.abs_quantise_sub_le_iff horder hstep (x := x.flat i)
  rw [bfpElement_eq_quantise, sharedExp_eq h]
  generalize (2 : ℚ) ^ Int.log 2 (x.blockAbs blockSize (i / blockSize)) = unit at *
  have hhalf : unit / (2 * mantissaLevels) = unit / mantissaLevels / 2 := by
    rw [div_div, mul_comm]
  have hlast : unit * (1 + 1 / (2 * mantissaLevels))
      = (mantissaLevels + 1 / 2) * (unit / mantissaLevels) := by
    field_simp
  rw [hhalf, hiff, hlast, abs_le]
  push_cast
  rw [neg_sub_left, add_comm, neg_mul]

/-- The largest absolute value of a block is that of its elements. -/
theorem blockAbs_le_iff (hblock : 0 < blockSize) {m : ℚ} (hm : 0 ≤ m) :
  x.blockAbs blockSize b ≤ m ↔ ∀ i < x.shape.prod, i / blockSize = b → |x.flat i| ≤ m
  := by
  rw [blockAbs, absMax_le_iff]
  constructor
  · rintro ⟨-, h⟩ i _ rfl
    have hmod := h (i % blockSize) (Nat.mod_lt i hblock)
    rwa [Nat.div_add_mod'] at hmod
  · intro h
    use hm
    intro j hj
    rcases lt_or_ge (b * blockSize + j) x.shape.prod with hlt | hge
    · apply h _ hlt
      apply mul_add_div_of_lt hj
    · -- an element of the padding
      rw [flat, dif_neg hge.not_gt, abs_zero]
      exact hm

/-- `bfp_fake_quant` returns for every tensor.  In a block whose largest absolute value is at
least `2 ^ -16`, an element is off by at most half a mantissa step exactly when it is no more
than half a step beyond `2 ^ e`, for the exponent `e` of that value; and so all elements are,
exactly when that value is. -/
theorem bfpFakeQuant_error_iff (x : Tensor) {blockSize mantissaLevels : ℕ}
    (hblock : 0 < blockSize) (hlevels : 0 < mantissaLevels) :
  ∃ out, x.bfpFakeQuant blockSize mantissaLevels = .ok out ∧ out.shape = x.shape
    ∧ ∀ b, 2 ^ (-16 : ℤ) ≤ x.blockAbs blockSize b →
      (∀ i < x.shape.prod, i / blockSize = b →
        (|out.flat i - x.flat i|
            ≤ 2 ^ Int.log 2 (x.blockAbs blockSize b) / (2 * mantissaLevels)
          ↔ |x.flat i| ≤ 2 ^ Int.log 2 (x.blockAbs blockSize b)
            * (1 + 1 / (2 * mantissaLevels))))
      ∧ ((∀ i < x.shape.prod, i / blockSize = b →
          |out.flat i - x.flat i|
            ≤ 2 ^ Int.log 2 (x.blockAbs blockSize b) / (2 * mantissaLevels))
        ↔ x.blockAbs blockSize b ≤ 2 ^ Int.log 2 (x.blockAbs blockSize b)
          * (1 + 1 / (2 * mantissaLevels)))
  := by
  refine ⟨_, bfpFakeQuant_eq x hblock mantissaLevels, rfl, ?_⟩
  intro b hb
  have helement : ∀ i < x.shape.prod, i / blockSize = b →
      (|(x.reshapeAs (x.bfpElement blockSize mantissaLevels)).flat i - x.flat i|
          ≤ 2 ^ Int.log 2 (x.blockAbs blockSize b) / (2 * mantissaLevels)
        ↔ |x.flat i| ≤ 2 ^ Int.log 2 (x.blockAbs blockSize b)
          * (1 + 1 / (2 * mantissaLevels))) := by
    rintro i hi rfl
    rw [flat_reshapeAs _ _ hi]
    apply abs_bfpElement_sub_le_iff hlevels hb
  use helement
  have hbound : (0 : ℚ)
      ≤ 2 ^ Int.log 2 (x.blockAbs blockSize b) * (1 + 1 / (2 * mantissaLevels)) := by
    apply mul_nonneg (zpow_pos two_pos _).le
    positivity
  rw [blockAbs_le_iff hblock hbound]
  constructor
  · intro h i hi hib
    apply (helement i hi hib).mp (h i hi hib)
  · intro h i hi hib
    apply (helement i hi hib).mpr (h i hi hib)

/-- The tensor of one element. -/
def single (a : ℚ) : Tensor := ⟨[1], fun _ => a⟩

/-- A one is rounded exactly. -/
theorem bfpFakeQuant_single_one :
  ∃ out, (single 1).bfpFakeQuant 16 127 = .ok out ∧ out.shape = [1]
    ∧ |out.flat 0 - 1| ≤ 1 / (2 * 127)
  := by
  obtain ⟨out, hout, hshape, hblocks⟩ :=
    bfpFakeQuant_error_iff (single 1) (by decide : 0 < 16) (by decide : 0 < 127)
  have habs : (single 1).blockAbs 16 0 = 1 := by decide +kernel
  have hblock := (hblocks 0 (by rw [habs]; norm_num)).2
  have hlog : Int.log 2 (1 : ℚ) = 0 := Int.log_one_right 2
  rw [habs, hlog] at hblock
  have helements := hblock.mpr (by norm_num)
  refine ⟨out, hout, hshape, ?_⟩
  have hfirst := helements 0 (by decide) (by decide)
  norm_num at hfirst ⊢
  exact hfirst

/-- The value 1.5 is clamped to 1. -/
theorem not_bfpFakeQuant_half :
  ∃ out, (single (3 / 2)).bfpFakeQuant 16 127 = .ok out
    ∧ 2 ^ (-16 : ℤ) ≤ (single (3 / 2)).blockAbs 16 0
    ∧ ¬ |out.flat 0 - (single (3 / 2)).flat 0|
      ≤ 2 ^ Int.log 2 ((single (3 / 2)).blockAbs 16 0) / (2 * 127)
  := by
  refine ⟨_, bfpFakeQuant_eq _ (by decide) 127, ?_, ?_⟩
  · decide +kernel
  · decide +kernel

end Tensor

end Kv260
