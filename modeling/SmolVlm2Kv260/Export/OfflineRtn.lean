import Mathlib.Data.Int.Log
import Mathlib.Order.Bounds.Defs
import SmolVlm2Kv260.Export.Fidelity

/-!
# The offline encoder

`quantize_w4_rtn` of `quantize_weights.py`, on exact rationals.  The codes of a group are
`0, …, 15`, of which 8 stands for zero, and the largest absolute value of the group lies 7.5
steps from it.  The scale of a group is stored as a byte, in the unit of a power of two that the
matrix shares: the least one, but not below 1, of which 64 reach the largest scale.

With `y` the scale of a group in that unit, the weight `t` times the scale is decoded as its
code times `npRound y`, in place of `t * y`.
-/

set_option autoImplicit false

namespace Kv260

open Levels Blocks

/-- The exceptions of the encoder. -/
inductive EncoderError where
  | assertionError (message : String)
  | valueError (message : String)

/-- What `quantize_w4_rtn` returns. -/
structure W4Rtn where
  wPacked : ℕ → ℕ → BitVec 8
  scaleInt8 : ℕ → ℕ → BitVec 8
  zeroInt8 : ℕ → ℕ → BitVec 8
  scaleShift : ℕ

namespace OfflineRtn

/-! ### The encoder -/

section Encoder

variable (outF nGroups : ℕ) (weight : ℕ → ℕ → ℚ)

/-- `scale` of group `g` of row `r`. -/
def scale (r g : ℕ) : ℚ := groupMaxAbs grp (weight r) g / (15 / 2)

/-- `w_q` of column `c`. -/
def wQ (r c : ℕ) : BitVec 8 :=
  BitVec.ofInt 8 (npClip 0 15 (npRound (weight r c / scale weight r (c / grp) + 8)))

/-- `scale_max`, the maximum over all groups of all rows. -/
def scaleMax : ℚ := absMax (outF * nGroups) fun i => scale weight (i / nGroups) (i % nGroups)

/-- `scale_shift`. -/
def scaleShift : ℕ := (max 0 (Int.clog 2 (scaleMax outF nGroups weight + 1 / 10 ^ 8) - 6)).toNat

/-- `scale_int8` of group `g` of row `r`. -/
def scaleInt8 (r g : ℕ) : BitVec 8 :=
  BitVec.ofInt 8
    (npClip (-127) 127 (npRound (scale weight r g / 2 ^ scaleShift outF nGroups weight)))

/-- Byte `b` of row `r` of `w_packed`: the columns `2 * b` and `2 * b + 1`. -/
def wPacked (r b : ℕ) : BitVec 8 :=
  (wQ weight r (2 * b) &&& 0xF) ||| ((wQ weight r (2 * b + 1) &&& 0xF) <<< 4)

end Encoder

/-- `quantize_w4_rtn`, with the group size 32 that it is called with.  The maximum over the
scales fails when there is none. -/
def quantizeW4Rtn (outF inF : ℕ) (weight : ℕ → ℕ → ℚ) : Except EncoderError W4Rtn :=
  if inF % grp ≠ 0 then
    .error (.assertionError s!"in_features {inF} must be divisible by {grp}")
  else if outF * (inF / grp) = 0 then
    .error (.valueError "zero-size array to reduction operation maximum which has no identity")
  else
    .ok {
      wPacked := wPacked weight
      scaleInt8 := scaleInt8 outF (inF / grp) weight
      zeroInt8 := fun _ _ => 8
      scaleShift := scaleShift outF (inF / grp) weight
    }

end OfflineRtn

/-- The weight in row `r` and column `c` that the nibble, the scale, the zero point and the shift
stand for. -/
def W4Rtn.decode (q : W4Rtn) (r c : ℕ) : ℚ :=
  (((q.wPacked r (c / 2)).extractLsb' (c % 2 * 4) 4).toNat - (q.zeroInt8 r (c / grp)).toInt : ℤ)
    * (q.scaleInt8 r (c / grp)).toInt * 2 ^ q.scaleShift

namespace OfflineRtn

/-- Whatever the encoder returns decodes the weight in row `r` and column `c` to within a step
of its group. -/
def DecodesAt (outF inF : ℕ) (weight : ℕ → ℕ → ℚ) (r c : ℕ) : Prop :=
  ∀ q, quantizeW4Rtn outF inF weight = .ok q →
    |q.decode r c - weight r c| ≤ groupAbs grp (weight r) (c / grp) / (15 / 2)

/-! ### The power of two -/

section Shift

variable {outF nGroups : ℕ} {weight : ℕ → ℕ → ℚ}

theorem scale_pos (weight : ℕ → ℕ → ℚ) (r g : ℕ) :
  0 < scale weight r g
  := by
  have hpos : (0 : ℚ) < groupMaxAbs grp (weight r) g :=
    lt_of_lt_of_le (by norm_num) (le_max_right _ _)
  rw [scale]
  linarith

/-- The shift is the least for which 64 units reach all scales. -/
theorem scaleShift_le_iff {k : ℕ} :
  scaleShift outF nGroups weight ≤ k
    ↔ ∀ r < outF, ∀ g < nGroups, scale weight r g + 1 / 10 ^ 8 ≤ 64 * 2 ^ k
  := by
  have hmax : 0 ≤ scaleMax outF nGroups weight := absMax_nonneg _ _
  have hpos : 0 < scaleMax outF nGroups weight + 1 / 10 ^ 8 :=
    add_pos_of_nonneg_of_pos hmax (by norm_num)
  have hpow : ((2 : ℕ) : ℚ) ^ ((k + 6 : ℕ) : ℤ) = 64 * 2 ^ k := by
    rw [zpow_natCast, pow_add]
    push_cast
    ring
  have hclog := Int.le_zpow_iff_clog_le one_lt_two (x := ((k + 6 : ℕ) : ℤ)) hpos
  have hone : (1 : ℚ) ≤ 2 ^ k := one_le_pow₀ (by norm_num)
  rw [hpow] at hclog
  have hshift : scaleShift outF nGroups weight ≤ k
      ↔ scaleMax outF nGroups weight + 1 / 10 ^ 8 ≤ 64 * 2 ^ k := by
    rw [hclog, scaleShift]
    omega
  have hall : scaleMax outF nGroups weight ≤ 64 * 2 ^ k - 1 / 10 ^ 8
      ↔ ∀ r < outF, ∀ g < nGroups, |scale weight r g| ≤ 64 * 2 ^ k - 1 / 10 ^ 8 := by
    rw [scaleMax, absMax_le_iff]
    rw [← forall_lt_mul_iff (P := fun r g => |scale weight r g| ≤ 64 * 2 ^ k - 1 / 10 ^ 8)]
    have hnonneg : (0 : ℚ) ≤ 64 * 2 ^ k - 1 / 10 ^ 8 := by linarith
    simp only [hnonneg, true_and]
  rw [hshift, ← le_sub_iff_add_le, hall]
  simp only [abs_of_pos (scale_pos _ _ _), le_sub_iff_add_le]

end Shift

/-! ### Decoding -/

/-- The code of the weight `t` times its scale, as a number of steps from zero. -/
def code (t : ℚ) : ℤ := npClip 0 15 (npRound (t + 8)) - 8

section Decode

variable {outF nGroups r g c : ℕ} {weight : ℕ → ℕ → ℚ}

/-- No scale is clipped. -/
theorem toInt_scaleInt8 (hr : r < outF) (hg : g < nGroups) :
  (scaleInt8 outF nGroups weight r g).toInt
    = npRound (scale weight r g / 2 ^ scaleShift outF nGroups weight)
  := by
  have hpow : (0 : ℚ) < 2 ^ scaleShift outF nGroups weight := by positivity
  have hle := scaleShift_le_iff.mp (Nat.le_refl (scaleShift outF nGroups weight)) r hr g hg
  have hpos := scale_pos weight r g
  obtain ⟨hlow, hhigh⟩ := npRound_mem (a := 0) (b := 64)
    (x := scale weight r g / 2 ^ scaleShift outF nGroups weight)
    (by rw [Int.cast_zero]; apply (div_pos hpos hpow).le)
    (by rw [div_le_iff₀ hpow]; push_cast; linarith)
  rw [scaleInt8, npClip, BitVec.toInt_ofInt, Int.bmod_def]
  split <;> omega

/-- The nibble of column `c` is its code plus 8. -/
theorem toNat_nibble :
  (((wPacked weight r (c / 2)).extractLsb' (c % 2 * 4) 4).toNat : ℤ)
    = code (weight r c / scale weight r (c / grp)) + 8
  := by
  have hnibble : (wPacked weight r (c / 2)).extractLsb' (c % 2 * 4) 4
      = (wQ weight r c).setWidth 4 := by
    apply BitVec.eq_of_getLsbD_eq
    intro i hi
    rw [BitVec.getLsbD_extractLsb', BitVec.getLsbD_setWidth, wPacked,
      packNibbles_getLsbD (wQ weight r) c hi]
  rw [hnibble, BitVec.toNat_setWidth, wQ, BitVec.toNat_ofInt, code, npClip]
  omega

theorem quantizeW4Rtn_eq (outF nGroups : ℕ) (weight : ℕ → ℕ → ℚ) :
  quantizeW4Rtn outF (grp * nGroups) weight
    = if outF * nGroups = 0 then
        .error (.valueError "zero-size array to reduction operation maximum which has no identity")
      else
        .ok {
          wPacked := wPacked weight
          scaleInt8 := scaleInt8 outF nGroups weight
          zeroInt8 := fun _ _ => 8
          scaleShift := scaleShift outF nGroups weight
        }
  := by
  have hmod : ¬ grp * nGroups % grp ≠ 0 := by
    rw [Nat.mul_mod_right]
    simp
  rw [quantizeW4Rtn, if_neg hmod, Nat.mul_div_cancel_left _ grp_pos]

/-- A weight is decoded as its code times the rounded scale. -/
theorem decode_eq {q : W4Rtn} (hq : quantizeW4Rtn outF (grp * nGroups) weight = .ok q)
    (hr : r < outF) (hc : c < grp * nGroups) :
  q.decode r c = code (weight r c / scale weight r (c / grp))
    * npRound (scale weight r (c / grp) / 2 ^ scaleShift outF nGroups weight)
    * 2 ^ scaleShift outF nGroups weight
  := by
  rw [quantizeW4Rtn_eq] at hq
  split at hq
  · cases hq
  · obtain rfl := Except.ok.inj hq
    have hzero : (8 : BitVec 8).toInt = 8 := rfl
    rw [W4Rtn.decode, toNat_nibble, hzero, add_sub_cancel_right,
      toInt_scaleInt8 hr (Nat.div_lt_of_lt_mul hc)]

/-- A weight is decoded to within a step exactly when its code times the rounded scale is, in
the unit of the matrix. -/
theorem decodesAt_iff (hr : r < outF) (hc : c < grp * nGroups) :
  DecodesAt outF (grp * nGroups) weight r c
    ↔ |code (weight r c / scale weight r (c / grp))
          * npRound (scale weight r (c / grp) / 2 ^ scaleShift outF nGroups weight)
        - weight r c / 2 ^ scaleShift outF nGroups weight|
      ≤ groupAbs grp (weight r) (c / grp) / (15 / 2) / 2 ^ scaleShift outF nGroups weight
  := by
  have hpow : (0 : ℚ) < 2 ^ scaleShift outF nGroups weight := by positivity
  have hne : outF * nGroups ≠ 0 := by
    apply Nat.mul_ne_zero (Nat.ne_zero_of_lt hr)
    rintro rfl
    cases hc
  have hreturns : ∃ q, quantizeW4Rtn outF (grp * nGroups) weight = .ok q := by
    rw [quantizeW4Rtn_eq, if_neg hne]
    exact ⟨_, rfl⟩
  obtain ⟨q, hq⟩ := hreturns
  have hiff : DecodesAt outF (grp * nGroups) weight r c
      ↔ |q.decode r c - weight r c| ≤ groupAbs grp (weight r) (c / grp) / (15 / 2) := by
    constructor
    · intro h
      apply h q hq
    · intro h q' hq'
      obtain rfl := Except.ok.inj (hq.symm.trans hq')
      exact h
  have hfactor : ∀ a b : ℚ, a * 2 ^ scaleShift outF nGroups weight - b
      = (a - b / 2 ^ scaleShift outF nGroups weight) * 2 ^ scaleShift outF nGroups weight := by
    intro a b
    rw [sub_mul, div_mul_cancel₀ b hpow.ne']
  rw [hiff, decode_eq hq hr hc, hfactor, abs_mul, abs_of_pos hpow, ← le_div_iff₀ hpow]

end Decode

/-! ### Scales that are kept -/

/-- The scales that are rounded to no less than 13/14 and no more than 17/16 of themselves. -/
def ScaleKept (y : ℚ) : Prop :=
  128 / 17 ≤ y ∨ y < 15 / 2 ∧ ∃ n : ℕ, 0 < n ∧ n ≤ 7 ∧ 16 / 17 * n ≤ y ∧ y ≤ 14 / 13 * n

theorem scaleKept_iff {y : ℚ} (hy : 0 < y) :
  ScaleKept y ↔ 13 / 14 * y ≤ npRound y ∧ npRound y ≤ 17 / 16 * y
  := by
  obtain ⟨hlow, hhigh⟩ := abs_le.mp (abs_npRound_sub_le y)
  constructor
  · rintro (hlarge | ⟨hlt, n, hpos, hle, hge, hle'⟩)
    · use by linarith
      rcases le_total y 8 with hsmall | hlarge'
      · have hround : npRound y ≤ 8 := npRounding.round_le (by push_cast; exact hsmall)
        have hcast : (npRound y : ℚ) ≤ 8 := by exact_mod_cast hround
        linarith
      · linarith
    · -- the scale is nearer to `n` than to any other integer
      have hcast : (n : ℚ) ≤ 7 := by exact_mod_cast hle
      have hup : y < n + 1 / 2 := by
        rcases hle.eq_or_lt with rfl | hlt'
        · push_cast
          linarith
        · have hcast' : (n : ℚ) ≤ 6 := by exact_mod_cast Nat.le_of_lt_succ hlt'
          linarith
      have hround : npRound y = n := by
        apply npRounding.round_eq
        · push_cast
          linarith
        · push_cast
          exact hup
      rw [hround, Int.cast_natCast]
      constructor
      · linarith
      · linarith
  · rintro ⟨hge, hle⟩
    rcases le_or_gt (128 / 17) y with hlarge | hsmall
    · exact .inl hlarge
    · right
      have hpos : 0 < npRound y := by
        have hcast : (0 : ℚ) < npRound y := by linarith
        exact_mod_cast hcast
      have hlt : npRound y < 8 := by
        have hcast : (npRound y : ℚ) < 8 := by linarith
        exact_mod_cast hcast
      -- in the middle between 7 and 8 the even integer is taken
      have hne : y ≠ 15 / 2 := by
        rintro rfl
        have heven : npRound (15 / 2) = 8 := npRound_eq_of_even (by decide) (by norm_num [abs_le])
        omega
      obtain ⟨n, hn⟩ := Int.eq_ofNat_of_zero_le hpos.le
      rw [hn] at hpos hlt
      rw [hn, Int.cast_natCast] at hge hle hlow hhigh
      have hle' : n ≤ 7 := by omega
      have hseven : (n : ℚ) ≤ 7 := by exact_mod_cast hle'
      refine ⟨lt_of_le_of_ne (by linarith) hne, n, by omega, hle', by linarith, by linarith⟩

/-- A number of steps within the range of the group is off from its code by half a step, and
only the end of the range has the code `-8`. -/
theorem code_spec {t : ℚ} (ht : |t| ≤ 15 / 2) :
  |code t - t| ≤ 1 / 2 ∧ code t ≤ 7 ∧ (-7 ≤ code t ∨ code t = -8 ∧ t = -(15 / 2))
  := by
  obtain ⟨hlow, hhigh⟩ := abs_le.mp ht
  have hcode : code t = npRounding.level 0 15 (t + 8) - 8 := rfl
  have hlevel : |(npRounding.level 0 15 (t + 8) : ℚ) - (t + 8)| ≤ 1 / 2 := by
    apply (npRounding.abs_level_sub_le_iff (by decide)).mpr
    constructor
    · push_cast
      linarith
    · push_cast
      linarith
  obtain ⟨hge, hle⟩ := npRounding.level_mem (by decide : (0 : ℤ) ≤ 15) (t + 8)
  have hnear : |code t - t| ≤ 1 / 2 := by
    rw [hcode]
    push_cast
    rwa [sub_sub, add_comm 8 t]
  refine ⟨hnear, by omega, ?_⟩
  rcases lt_or_ge (code t) (-7) with hlt | hge'
  · right
    have heq : code t = -8 := by omega
    rw [heq] at hnear
    obtain ⟨hdown, -⟩ := abs_le.mp hnear
    push_cast at hdown
    exact ⟨heq, by linarith⟩
  · exact .inl hge'

/-- All weights of a group are decoded to within a step when its scale is kept. -/
theorem abs_code_mul_sub_le {t y : ℚ} (ht : |t| ≤ 15 / 2) (hy : 0 < y) (h : ScaleKept y) :
  |code t * npRound y - t * y| ≤ y
  := by
  obtain ⟨hge, hle⟩ := (scaleKept_iff hy).mp h
  obtain ⟨hnear, hseven, hcases⟩ := code_spec ht
  rcases hcases with hcode | ⟨hcode, rfl⟩
  · -- half a step is lost by the code, and half a step by the scale
    have hsplit : (code t : ℚ) * npRound y - t * y
        = code t * (npRound y - y) + (code t - t) * y := by ring
    have hcode' : |(code t : ℚ)| ≤ 7 :=
      abs_le.mpr ⟨by exact_mod_cast hcode, by exact_mod_cast hseven⟩
    have hscale : |(npRound y : ℚ) - y| ≤ y / 14 := by
      rw [abs_le]
      constructor
      · linarith
      · linarith
    have hfirst : |(code t : ℚ) * (npRound y - y)| ≤ 7 * (y / 14) := by
      rw [abs_mul]
      apply mul_le_mul hcode' hscale (abs_nonneg _) (by norm_num)
    have hsecond : |((code t : ℚ) - t) * y| ≤ 1 / 2 * y := by
      rw [abs_mul, abs_of_pos hy]
      apply mul_le_mul_of_nonneg_right hnear hy.le
    rw [hsplit]
    have hsum := abs_add_le (code t * (npRound y - y) : ℚ) ((code t - t) * y)
    linarith
  · rw [hcode, abs_le]
    push_cast
    constructor
    · linarith
    · linarith

/-! ### Matrices of given magnitudes -/

section Magnitudes

variable {outF nGroups : ℕ} {weight weight' : ℕ → ℕ → ℚ}

/-- The groups of the two matrices have the same largest absolute values. -/
def SameMagnitudes (outF nGroups : ℕ) (weight weight' : ℕ → ℕ → ℚ) : Prop :=
  ∀ r < outF, ∀ g < nGroups, groupAbs grp (weight' r) g = groupAbs grp (weight r) g

theorem scale_eq (r g : ℕ) :
  scale weight r g = max (groupAbs grp (weight r) g) (1 / 10 ^ 8) / (15 / 2)
  := rfl

/-- The power of two in terms of the largest absolute values. -/
theorem scaleShift_le_iff_groupAbs {k : ℕ} :
  scaleShift outF nGroups weight ≤ k
    ↔ ∀ r < outF, ∀ g < nGroups,
      groupAbs grp (weight r) g / (15 / 2) + 1 / 10 ^ 8 ≤ 64 * 2 ^ k
  := by
  have hone : (1 : ℚ) ≤ 2 ^ k := one_le_pow₀ (by norm_num)
  have hiff : ∀ r g, scale weight r g + 1 / 10 ^ 8 ≤ 64 * 2 ^ k
      ↔ groupAbs grp (weight r) g / (15 / 2) + 1 / 10 ^ 8 ≤ 64 * 2 ^ k := by
    intro r g
    rw [scale_eq]
    rcases le_total (groupAbs grp (weight r) g) (1 / 10 ^ 8) with hsmall | hlarge
    · -- such a scale is far below 64
      rw [max_eq_right hsmall]
      constructor
      · intro _
        linarith
      · intro _
        linarith
    · rw [max_eq_left hlarge]
  simp only [scaleShift_le_iff, hiff]

theorem isLeast_scaleShift :
  IsLeast {k : ℕ | ∀ r < outF, ∀ g < nGroups,
      groupAbs grp (weight r) g / (15 / 2) + 1 / 10 ^ 8 ≤ 64 * 2 ^ k}
    (scaleShift outF nGroups weight)
  := by
  constructor
  · exact scaleShift_le_iff_groupAbs.mp (Nat.le_refl _)
  · intro k hk
    exact scaleShift_le_iff_groupAbs.mpr hk

theorem scaleShift_congr (h : SameMagnitudes outF nGroups weight weight') :
  scaleShift outF nGroups weight' = scaleShift outF nGroups weight
  := by
  apply eq_of_forall_ge_iff
  intro k
  rw [scaleShift_le_iff_groupAbs, scaleShift_le_iff_groupAbs]
  constructor
  · intro hk r hr g hg
    rw [← h r hr g hg]
    apply hk r hr g hg
  · intro hk r hr g hg
    rw [h r hr g hg]
    apply hk r hr g hg

/-- A weight is at most as large as the largest of its group. -/
theorem abs_le_groupAbs_div (weight : ℕ → ℕ → ℚ) (r c : ℕ) :
  |weight r c| ≤ groupAbs grp (weight r) (c / grp)
  := by
  have hle := abs_le_groupAbs (w := weight r) (g := c / grp) (Nat.mod_lt c grp_pos)
  rwa [Nat.div_add_mod'] at hle

/-- A group that is zero, or whose scale is kept, is decoded to within a step. -/
theorem decodesAt_of_scaleKept {r c : ℕ} (hr : r < outF) (hc : c < grp * nGroups)
    (h : groupAbs grp (weight r) (c / grp) = 0
      ∨ ScaleKept (groupAbs grp (weight r) (c / grp) / (15 / 2)
        / 2 ^ scaleShift outF nGroups weight)) :
  DecodesAt outF (grp * nGroups) weight r c
  := by
  have hpow : (0 : ℚ) < 2 ^ scaleShift outF nGroups weight := by positivity
  have hone : (1 : ℚ) ≤ 2 ^ scaleShift outF nGroups weight := one_le_pow₀ (by norm_num)
  have habs := abs_le_groupAbs_div weight r c
  rw [decodesAt_iff hr hc]
  rcases h with hzero | hkept
  · rw [hzero, abs_nonpos_iff] at habs
    have hcode : code 0 = 0 := by decide +kernel
    rw [habs, hzero]
    simp [hcode]
  · have hsixteen : 16 / 17 ≤ groupAbs grp (weight r) (c / grp) / (15 / 2)
        / 2 ^ scaleShift outF nGroups weight := by
      rcases hkept with hlarge | ⟨-, n, hn, -, hn', -⟩
      · linarith
      · have hcast : (1 : ℚ) ≤ n := by exact_mod_cast hn
        linarith
    -- so the floor of the scale does not matter
    have hfloor : 1 / 10 ^ 8 ≤ groupAbs grp (weight r) (c / grp) := by
      rw [le_div_iff₀ hpow] at hsixteen
      linarith
    have hscale : scale weight r (c / grp) = groupAbs grp (weight r) (c / grp) / (15 / 2) := by
      rw [scale_eq, max_eq_left hfloor]
    have hpos := scale_pos weight r (c / grp)
    have ht : |weight r c / scale weight r (c / grp)| ≤ 15 / 2 := by
      rw [abs_div, abs_of_pos hpos, div_le_iff₀ hpos, hscale]
      linarith
    have hunit : weight r c / 2 ^ scaleShift outF nGroups weight
        = weight r c / scale weight r (c / grp)
          * (scale weight r (c / grp) / 2 ^ scaleShift outF nGroups weight) := by
      rw [div_mul_div_cancel₀ hpos.ne']
    rw [← hscale] at hkept ⊢
    rw [hunit]
    apply abs_code_mul_sub_le ht (div_pos hpos hpow) hkept

/-- The matrix that has the largest absolute value of each group everywhere in the group, times
`sign`. -/
def extremes (sign : ℚ) (weight : ℕ → ℕ → ℚ) (r c : ℕ) : ℚ :=
  sign * groupAbs grp (weight r) (c / grp)

theorem sameMagnitudes_extremes {sign : ℚ} (hsign : |sign| = 1) :
  SameMagnitudes outF nGroups weight (extremes sign weight)
  := by
  intro r _ g _
  apply absMax_of_abs_eq grp_pos
  intro i hi
  change |sign * groupAbs grp (weight r) ((g * grp + i) / grp)| = _
  rw [mul_add_div_of_lt hi, abs_mul, hsign, one_mul]
  apply abs_of_nonneg (absMax_nonneg _ _)

/-- If a group of these values is decoded to within a step, so are 7.5 steps to either side. -/
theorem of_decodesAt_extremes (sign : ℚ) (hsign : |sign| = 1) {r g : ℕ} (hr : r < outF)
    (hg : g < nGroups) (hne : groupAbs grp (weight r) g ≠ 0)
    (h : DecodesAt outF (grp * nGroups) (extremes sign weight) r (grp * g)) :
  |code (sign * (15 / 2)) * npRound (groupAbs grp (weight r) g / (15 / 2)
        / 2 ^ scaleShift outF nGroups weight)
      - sign * (15 / 2) * (groupAbs grp (weight r) g / (15 / 2)
        / 2 ^ scaleShift outF nGroups weight)|
    ≤ groupAbs grp (weight r) g / (15 / 2) / 2 ^ scaleShift outF nGroups weight
  := by
  have hsame : SameMagnitudes outF nGroups weight (extremes sign weight) :=
    sameMagnitudes_extremes hsign
  have hc : grp * g < grp * nGroups := Nat.mul_lt_mul_of_pos_left hg grp_pos
  have hdiv : grp * g / grp = g := Nat.mul_div_cancel_left g grp_pos
  have hpow : (0 : ℚ) < 2 ^ scaleShift outF nGroups weight := by positivity
  have hone : (1 : ℚ) ≤ 2 ^ scaleShift outF nGroups weight := one_le_pow₀ (by norm_num)
  have hpos : 0 < groupAbs grp (weight r) g := lt_of_le_of_ne (absMax_nonneg _ _) hne.symm
  rw [decodesAt_iff hr hc, scaleShift_congr hsame, scale_eq, hdiv, hsame r hr g hg, extremes,
    hdiv] at h
  generalize groupAbs grp (weight r) g = m at *
  generalize (2 : ℚ) ^ scaleShift outF nGroups weight = unit at *
  have hunit : sign * m / unit = sign * (15 / 2) * (m / (15 / 2) / unit) := by
    field_simp
  rcases lt_or_ge m (1 / 10 ^ 8) with hsmall | hlarge
  · -- the scale is rounded to zero, and the weight to zero
    exfalso
    have hround : npRound (1 / 10 ^ 8 / (15 / 2) / unit) = 0 := by
      apply npRounding.round_eq
      · have hge : (0 : ℚ) ≤ 1 / 10 ^ 8 / (15 / 2) / unit := by positivity
        push_cast
        linarith
      · have hle : (1 : ℚ) / 10 ^ 8 / (15 / 2) / unit ≤ 1 / 10 ^ 8 / (15 / 2) :=
          div_le_self (by norm_num) hone
        push_cast
        linarith
    have hm : 0 < m / unit := div_pos hpos hpow
    have hstep : m / (15 / 2) / unit = m / unit / (15 / 2) := div_right_comm m (15 / 2) unit
    rw [max_eq_right hsmall.le, hround, Int.cast_zero, mul_zero, zero_sub, abs_neg, mul_div_assoc,
      abs_mul, hsign, one_mul, abs_of_pos hm, hstep] at h
    linarith
  · have hsteps : sign * m / (m / (15 / 2)) = sign * (15 / 2) := by
      field_simp
    rwa [max_eq_left hlarge, hsteps, hunit] at h

/-- `quantize_w4_rtn` returns for a matrix that is not empty.  A weight is decoded to within a
step of its group exactly when its code times the rounded scale is, in the unit of the matrix.
The weights of all matrices of given magnitudes are, exactly when each group is zero or its
scale, in the unit of the matrix, is kept. -/
theorem quantizeW4Rtn_decodes_iff (outF nGroups : ℕ) (weight : ℕ → ℕ → ℚ) :
  (0 < outF → 0 < nGroups → ∃ q, quantizeW4Rtn outF (grp * nGroups) weight = .ok q)
  ∧ ∃ k : ℕ, IsLeast {k : ℕ | ∀ r < outF, ∀ g < nGroups,
      groupAbs grp (weight r) g / (15 / 2) + 1 / 10 ^ 8 ≤ 64 * 2 ^ k} k
    ∧ (∀ r < outF, ∀ c < grp * nGroups, DecodesAt outF (grp * nGroups) weight r c
      ↔ |code (weight r c / scale weight r (c / grp))
            * npRound (scale weight r (c / grp) / 2 ^ k) - weight r c / 2 ^ k|
        ≤ groupAbs grp (weight r) (c / grp) / (15 / 2) / 2 ^ k)
    ∧ ((∀ weight', SameMagnitudes outF nGroups weight weight' →
        ∀ r < outF, ∀ c < grp * nGroups, DecodesAt outF (grp * nGroups) weight' r c)
      ↔ ∀ r < outF, ∀ g < nGroups, groupAbs grp (weight r) g = 0
        ∨ ScaleKept (groupAbs grp (weight r) g / (15 / 2) / 2 ^ k))
  := by
  constructor
  · intro hout hgroups
    rw [quantizeW4Rtn_eq, if_neg (Nat.mul_ne_zero hout.ne' hgroups.ne')]
    exact ⟨_, rfl⟩
  refine ⟨scaleShift outF nGroups weight, isLeast_scaleShift, ?_, ?_⟩
  · intro r hr c hc
    apply decodesAt_iff hr hc
  constructor
  · intro h r hr g hg
    rcases eq_or_ne (groupAbs grp (weight r) g) 0 with hzero | hne
    · exact .inl hzero
    right
    have hc : grp * g < grp * nGroups := Nat.mul_lt_mul_of_pos_left hg grp_pos
    have hplus := of_decodesAt_extremes 1 abs_one hr hg hne
      (h _ (sameMagnitudes_extremes abs_one) r hr _ hc)
    have hminus := of_decodesAt_extremes (-1) (by norm_num) hr hg hne
      (h _ (sameMagnitudes_extremes (by norm_num)) r hr _ hc)
    have hseven : code (1 * (15 / 2)) = 7 := by decide +kernel
    have height : code (-1 * (15 / 2)) = -8 := by decide +kernel
    have hpos : 0 < groupAbs grp (weight r) g / (15 / 2) / 2 ^ scaleShift outF nGroups weight := by
      have hm : 0 < groupAbs grp (weight r) g := lt_of_le_of_ne (absMax_nonneg _ _) hne.symm
      positivity
    rw [hseven, abs_le] at hplus
    rw [height, abs_le] at hminus
    push_cast at hplus hminus
    rw [scaleKept_iff hpos]
    constructor
    · linarith
    · linarith
  · intro h weight' hsame r hr c hc
    have hg : c / grp < nGroups := Nat.div_lt_of_lt_mul hc
    have hkept := h r hr (c / grp) hg
    rw [← hsame r hr (c / grp) hg, ← scaleShift_congr hsame] at hkept
    apply decodesAt_of_scaleKept hr hc hkept

/-- A matrix of ones: its scale 2 / 15 is rounded to zero, and so are its weights. -/
theorem not_decodesAt_ones :
  ∃ q, quantizeW4Rtn 1 32 (fun _ _ => 1) = .ok q
    ∧ ¬ |q.decode 0 0 - 1| ≤ groupAbs grp (fun _ => 1) 0 / (15 / 2)
  := by
  refine ⟨_, (quantizeW4Rtn_eq 1 1 fun _ _ => 1).trans (if_neg (by decide)), ?_⟩
  decide +kernel

end Magnitudes

end OfflineRtn

end Kv260
