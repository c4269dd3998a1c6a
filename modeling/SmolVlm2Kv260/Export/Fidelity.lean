import Mathlib.Algebra.Order.Field.Rat
import Mathlib.Tactic.IntervalCases
import Mathlib.Tactic.Linarith
import SmolVlm2Kv260.Export.MatrixFile

/-!
# The exported weights and the evaluated weights

A model is evaluated with the weights that `w4_fake_quant` of `quant_ops.py` rounds, and
exported with those that `np_quantize_w4_rtn` rounds.  Both use the same codes; but the
export also rounds the scale to a multiple of `1 / 64`, and the kernel divides the product of
code and scale by 16 and drops what is left.

With `t = 64 * s` for a scale `s`, the kernel's weight for a code `q` is off by
`q * (t - npRound t)`, for the rounded scale, and by `q * npRound t % 16`, for the division;
this counts sixteenths of the kernel's unit, in which a step is `t`.
-/

set_option autoImplicit false

namespace Kv260

/-! ### The two roundings of a weight -/

/-- The largest absolute value of a group. -/
def groupAbs (groupSize : ℕ) (w : ℕ → ℚ) (g : ℕ) : ℚ :=
  (List.range groupSize).foldl (fun m i => max m |w (g * groupSize + i)|) 0

/-- `quant` of column `c`. -/
def rtnCode (groupSize : ℕ) (w : ℕ → ℚ) (c : ℕ) : ℤ :=
  npClip (-8) 7 (npRound (w c / rtnScale groupSize w (c / groupSize)))

/-- `w4_fake_quant`, on a row of `inFeatures` weights, which is padded with zeros to whole
groups. -/
def w4FakeQuant (groupSize inFeatures : ℕ) (w : ℕ → ℚ) (c : ℕ) : ℚ :=
  let wf := fun c => if c < inFeatures then w c else 0
  let scale := rtnScale groupSize wf (c / groupSize)
  npClip (-8) 7 (npRound (wf c / scale)) * scale

/-- The weight the kernel multiplies with, from the exported nibble, scale and zero point. -/
def hardwareWeight (w : ℕ → ℚ) (c : ℕ) : ℤ :=
  dequantW4Group (exportedPack w (c / grp)) (rtnScaleByte grp w (c / grp)).toInt
    rtnZeroByte.toInt (c % grp)

/-- In the unit of the kernel, the weight differs from the evaluated one by at most half a
step of its group, and its computation does not wrap. -/
def FaithfulWeight (inFeatures : ℕ) (w : ℕ → ℚ) (c : ℕ) : Prop :=
  |hardwareWeight w c - 4 * w4FakeQuant grp inFeatures w c| ≤ 2 * rtnScale grp w (c / grp)
    ∧ hardwareWeight w c
      = (rtnCode grp w c * (rtnScaleByte grp w (c / grp)).toInt) >>> (4 : ℕ)

/-- For a scale that is rounded from `t` to `c`, what the code `q` loses is at most half a
step. -/
def LossWithin (c : ℤ) (t : ℚ) (q : ℤ) : Prop :=
  |q * (t - c) + (q * c % 16 : ℤ)| ≤ t / 2

instance (c : ℤ) (t : ℚ) (q : ℤ) : Decidable (LossWithin c t q) :=
  inferInstanceAs (Decidable (_ ≤ _))

/-- The values of `t` for which no code loses more than half a step. -/
def FaithfulScale (t : ℚ) : Prop :=
  (31 / 2 ≤ t ∧ t ≤ 33 / 2) ∨ (47 / 2 ≤ t ∧ t ≤ 49 / 2) ∨ (416 / 15 ≤ t ∧ t ≤ 256 / 9)
    ∨ t = 320 / 11 ∨ (448 / 15 ≤ t ∧ t ≤ 448 / 13) ∨ 69 / 2 < t

section Row

variable {w : ℕ → ℚ} {g i : ℕ}

theorem groupMaxAbs_eq (groupSize : ℕ) :
  groupMaxAbs groupSize w g = max (groupAbs groupSize w g) (1 / 10 ^ 8)
  := rfl

/-- A weight is at most as large as the largest of its group. -/
theorem abs_le_groupAbs {groupSize : ℕ} (hi : i < groupSize) :
  |w (g * groupSize + i)| ≤ groupAbs groupSize w g
  := Levels.abs_le_absMax hi fun i => w (g * groupSize + i)

theorem rtnScale_pos (groupSize : ℕ) :
  0 < rtnScale groupSize w g
  := by
  have hpos : (0 : ℚ) < groupMaxAbs groupSize w g :=
    lt_of_lt_of_le (by norm_num) (le_max_right _ _)
  rw [rtnScale]
  linarith

/-- The code of a weight: no weight needs the code `-8`, and none is clipped. -/
theorem rtnCode_eq (hi : i < grp) :
  rtnCode grp w (g * grp + i) = npRound (w (g * grp + i) / rtnScale grp w g)
    ∧ -7 ≤ rtnCode grp w (g * grp + i) ∧ rtnCode grp w (g * grp + i) ≤ 7
  := by
  have hpos := rtnScale_pos (w := w) (g := g) grp
  have habs : |w (g * grp + i)| ≤ 7 * rtnScale grp w g := by
    have hle := (abs_le_groupAbs (w := w) (g := g) hi).trans (le_max_left _ (1 / 10 ^ 8))
    rw [← groupMaxAbs_eq] at hle
    rw [rtnScale]
    linarith
  obtain ⟨hlow, hhigh⟩ := abs_le.mp habs
  have hmem := npRound_mem (x := w (g * grp + i) / rtnScale grp w g) (a := -7) (b := 7)
    (by rw [le_div_iff₀ hpos]; push_cast; linarith)
    (by rw [div_le_iff₀ hpos]; push_cast; linarith)
  rw [rtnCode, Blocks.mul_add_div_of_lt hi, npClip]
  omega

/-- The nibble and the zero point give back the code; neither the product nor the weight
wraps. -/
theorem hardwareWeight_eq (hi : i < grp) (hscale : 64 * rtnScale grp w g ≤ 127) :
  (rtnScaleByte grp w g).toInt = npRound (64 * rtnScale grp w g)
    ∧ hardwareWeight w (g * grp + i)
      = (rtnCode grp w (g * grp + i) * npRound (64 * rtnScale grp w g)) >>> (4 : ℕ)
  := by
  have hpos := rtnScale_pos (w := w) (g := g) grp
  obtain ⟨hlow, hhigh⟩ := npRound_mem (x := 64 * rtnScale grp w g) (a := 0) (b := 127)
    (by push_cast; linarith) (by push_cast; linarith)
  obtain ⟨-, hcode, hcode'⟩ := rtnCode_eq (w := w) (g := g) hi
  have hbyte : (rtnScaleByte grp w g).toInt = npRound (64 * rtnScale grp w g) := by
    rw [rtnScaleByte, mul_comm, npClip, BitVec.toInt_ofInt, Int.bmod_def]
    split <;> omega
  have hmod : (g * grp + i) % grp = i := Nat.mul_add_mod_of_lt hi
  have hnibble : (((exportedPack w g).extractLsb' (i * 4) 4).toNat : ℤ)
      = rtnCode grp w (g * grp + i) + 8 := by
    have hstored : rtnStored grp w (g * grp + i)
        = BitVec.ofInt 8 (rtnCode grp w (g * grp + i) + 8) := rfl
    rw [exportedPack_nibble w g hi, hstored, BitVec.toNat_ofInt]
    omega
  use hbyte
  have hzero : rtnZeroByte.toInt = 8 := rfl
  have htmp : apInt 9 (rtnCode grp w (g * grp + i) + 8 - 8) = rtnCode grp w (g * grp + i) := by
    rw [add_sub_cancel_right]
    apply apInt_of_mem (by decide) (by omega) (by omega)
  have hprod : -7 * 127 ≤ rtnCode grp w (g * grp + i) * npRound (64 * rtnScale grp w g)
      ∧ rtnCode grp w (g * grp + i) * npRound (64 * rtnScale grp w g) ≤ 7 * 127 := by
    constructor <;> nlinarith
  simp only [hardwareWeight, dequantW4Group, Blocks.mul_add_div_of_lt hi, hmod, hnibble, hzero, hbyte, htmp,
    Int.shiftRight_eq_div_pow]
  apply apInt_of_mem (by decide)
  · omega
  · omega

/-- A row of whole groups is not padded. -/
theorem w4FakeQuant_eq {inFeatures : ℕ} (hcols : grp ∣ inFeatures) (hg : g < inFeatures / grp)
    (hi : i < grp) :
  w4FakeQuant grp inFeatures w (g * grp + i)
    = rtnCode grp w (g * grp + i) * rtnScale grp w g
  := by
  have hlt : ∀ j < grp, g * grp + j < inFeatures := by
    intro j hj
    obtain ⟨n, rfl⟩ := hcols
    rw [Nat.mul_div_cancel_left n (by decide)] at hg
    change j < 32 at hj
    change g * 32 + j < 32 * n
    omega
  have hscale : rtnScale grp (fun c => if c < inFeatures then w c else 0) g
      = rtnScale grp w g := by
    have habs : groupAbs grp (fun c => if c < inFeatures then w c else 0) g
        = groupAbs grp w g := by
      apply List.foldl_ext
      intro m j hj
      simp only [if_pos (hlt j (List.mem_range.mp hj))]
    rw [rtnScale, rtnScale, groupMaxAbs_eq, groupMaxAbs_eq, habs]
  simp only [w4FakeQuant, rtnCode, Blocks.mul_add_div_of_lt hi, hscale, if_pos (hlt i hi)]

/-- A weight is faithful exactly when its code loses at most half a step. -/
theorem faithfulWeight_iff {inFeatures : ℕ} (hcols : grp ∣ inFeatures)
    (hg : g < inFeatures / grp) (hi : i < grp) (hscale : 64 * rtnScale grp w g ≤ 127) :
  FaithfulWeight inFeatures w (g * grp + i)
    ↔ LossWithin (npRound (64 * rtnScale grp w g)) (64 * rtnScale grp w g)
      (rtnCode grp w (g * grp + i))
  := by
  obtain ⟨hbyte, hweight⟩ := hardwareWeight_eq (w := w) (g := g) hi hscale
  rw [FaithfulWeight, w4FakeQuant_eq hcols hg hi, hweight, Blocks.mul_add_div_of_lt hi, hbyte, LossWithin]
  generalize rtnCode grp w (g * grp + i) = q
  generalize rtnScale grp w g = s
  generalize npRound (64 * s) = c
  have hsplit : ((q * c) >>> (4 : ℕ) : ℤ) * 16 = q * c - q * c % 16 := by
    rw [Int.shiftRight_eq_div_pow]
    omega
  have hsplit' : (((q * c) >>> (4 : ℕ) : ℤ) : ℚ) * 16 = q * c - (q * c % 16 : ℤ) := by
    exact_mod_cast hsplit
  rw [abs_le, abs_le]
  constructor
  · rintro ⟨⟨hlow, hhigh⟩, -⟩
    constructor
    · linarith
    · linarith
  · rintro ⟨hlow, hhigh⟩
    refine ⟨⟨?_, ?_⟩, rfl⟩
    · linarith
    · linarith

end Row

/-! ### Scales at which all codes are faithful -/

/-- A code loses at most half a step between two values of `t` when it does so at both. -/
theorem lossWithin_of_endpoints {c q : ℤ} {a b t : ℚ} (ha : LossWithin c a q)
    (hb : LossWithin c b q) (hat : a ≤ t) (htb : t ≤ b) :
  LossWithin c t q
  := by
  obtain ⟨ha, ha'⟩ := abs_le.mp ha
  obtain ⟨hb, hb'⟩ := abs_le.mp hb
  -- the loss and its bound are linear in `t`
  rw [LossWithin, abs_le]
  constructor
  · rcases le_total 0 ((q : ℚ) + 1 / 2) with hslope | hslope
    · have hmul := mul_le_mul_of_nonneg_left hat hslope
      linarith
    · have hmul := mul_le_mul_of_nonpos_left htb hslope
      linarith
  · rcases le_total 0 ((q : ℚ) - 1 / 2) with hslope | hslope
    · have hmul := mul_le_mul_of_nonneg_left htb hslope
      linarith
    · have hmul := mul_le_mul_of_nonpos_left hat hslope
      linarith

/-- The codes of a group. -/
def codes : List ℤ := [-7, -6, -5, -4, -3, -2, -1, 0, 1, 2, 3, 4, 5, 6, 7]

theorem mem_codes {q : ℤ} :
  q ∈ codes ↔ -7 ≤ q ∧ q ≤ 7
  := by
  simp only [codes, List.mem_cons, List.not_mem_nil, or_false]
  omega

/-- From 37 on no code loses more than half a step: the scale is off by at most a half, and the
division drops at most 15. -/
theorem lossWithin_of_large {t : ℚ} {q : ℤ} (ht : 37 ≤ t) (hq : q ∈ codes) :
  LossWithin (npRound t) t q
  := by
  obtain ⟨hlow, hhigh⟩ := mem_codes.mp hq
  have hround := abs_npRound_sub_le t
  have hmod : 0 ≤ q * npRound t % 16 ∧ q * npRound t % 16 ≤ 15 := by omega
  have hcode : |(q : ℚ)| ≤ 7 := abs_le.mpr ⟨by exact_mod_cast hlow, by exact_mod_cast hhigh⟩
  have hscale : |(q : ℚ) * (t - npRound t)| ≤ 7 * (1 / 2) := by
    rw [abs_mul, abs_sub_comm]
    apply mul_le_mul hcode hround (abs_nonneg _) (by norm_num)
  have hdrop : |((q * npRound t % 16 : ℤ) : ℚ)| ≤ 15 := by
    rw [abs_le]
    constructor
    · have hcast : (0 : ℚ) ≤ (q * npRound t % 16 : ℤ) := by exact_mod_cast hmod.1
      linarith
    · exact_mod_cast hmod.2
  have hsum := abs_add_le ((q : ℚ) * (t - npRound t)) (q * npRound t % 16 : ℤ)
  rw [LossWithin]
  linarith

/-- The rounded scales below 37 that have faithful values, with the first and the last of
them. -/
def windows : List (ℤ × ℚ × ℚ) :=
  [(16, 31 / 2, 33 / 2), (24, 47 / 2, 49 / 2), (28, 416 / 15, 256 / 9),
    (29, 320 / 11, 320 / 11), (30, 448 / 15, 61 / 2), (31, 61 / 2, 63 / 2), (32, 63 / 2, 65 / 2),
    (33, 65 / 2, 67 / 2), (34, 67 / 2, 448 / 13), (35, 69 / 2, 71 / 2), (36, 71 / 2, 73 / 2),
    (37, 73 / 2, 75 / 2)]

/-- At the ends of a window all codes are faithful. -/
theorem lossWithin_windows :
  ∀ e ∈ windows, ∀ q ∈ codes, LossWithin e.1 e.2.1 q ∧ LossWithin e.1 e.2.2 q
  := by decide +kernel

/-- A rounded scale below 26 and a code that it makes lose too much. -/
def lossyCodes : List (ℤ × ℤ) :=
  [(1, -7), (2, 7), (3, -7), (4, 7), (5, -7), (6, 7), (7, -7), (8, -7), (9, 7), (10, -7), (11, 7),
    (12, -7), (13, 7), (14, -7), (15, 5), (17, -4), (18, 7), (19, -6), (20, 3), (21, 6), (22, 5),
    (23, 2), (25, -2)]

/-- The loss of a code as bounds on the product of the code and the rounded scale, of which
the division keeps a multiple of 16. -/
theorem lossWithin_iff {c q : ℤ} {t : ℚ} :
  LossWithin c t q
    ↔ (2 * q - 1) * t ≤ 2 * (q * c - q * c % 16 : ℤ)
      ∧ 2 * (q * c - q * c % 16 : ℤ) ≤ (2 * q + 1) * t
  := by
  rw [LossWithin, abs_le]
  push_cast
  constructor
  · rintro ⟨hlow, hhigh⟩
    constructor <;> linarith
  · rintro ⟨hlow, hhigh⟩
    constructor <;> linarith

/-- At both ends of the values that are rounded to such a scale, the weight is too small. -/
theorem lossyCodes_spec :
  ∀ e ∈ lossyCodes, e.2 ∈ codes
    ∧ 2 * (e.2 * e.1 - e.2 * e.1 % 16 : ℤ) < (2 * e.2 - 1) * ((e.1 : ℚ) - 1 / 2)
    ∧ 2 * (e.2 * e.1 - e.2 * e.1 % 16 : ℤ) < (2 * e.2 - 1) * ((e.1 : ℚ) + 1 / 2)
  := by decide +kernel

theorem not_lossWithin_of_lossyCode {e : ℤ × ℤ} (he : e ∈ lossyCodes) {t : ℚ}
    (ht : |e.1 - t| ≤ 1 / 2) :
  ¬ LossWithin e.1 t e.2
  := by
  intro hloss
  obtain ⟨-, hlow, hhigh⟩ := lossyCodes_spec e he
  have hle := (lossWithin_iff.mp hloss).1
  obtain ⟨ht, ht'⟩ := abs_le.mp ht
  rcases le_total 0 (2 * (e.2 : ℚ) - 1) with hslope | hslope
  · have hfirst : (e.1 : ℚ) - 1 / 2 ≤ t := by linarith
    have hmul := mul_le_mul_of_nonneg_left hfirst hslope
    linarith
  · have hlast : t ≤ e.1 + 1 / 2 := by linarith
    have hmul := mul_le_mul_of_nonpos_left hlast hslope
    linarith

/-- Below 37, a faithful value lies in one of the windows. -/
theorem exists_window {t : ℚ} (h : FaithfulScale t) (ht : t < 37) :
  ∃ e ∈ windows, e.1 = npRound t ∧ e.2.1 ≤ t ∧ t ≤ e.2.2
  := by
  have hround := abs_npRound_sub_le t
  obtain ⟨hlow, hhigh⟩ := abs_le.mp hround
  have heven : ∀ n : ℤ, n % 2 = 0 → (n : ℚ) - 1 / 2 ≤ t → t ≤ n + 1 / 2 → npRound t = n := by
    intro n hn hlow hhigh
    apply npRound_eq_of_even hn
    rw [abs_le]
    constructor <;> linarith
  rcases h with ⟨h, h'⟩ | ⟨h, h'⟩ | ⟨h, h'⟩ | h | ⟨h, h'⟩ | h
  · refine ⟨(16, 31 / 2, 33 / 2), by simp [windows], (heven 16 (by decide) ?_ ?_).symm, h, h'⟩
    all_goals
      push_cast
      linarith
  · refine ⟨(24, 47 / 2, 49 / 2), by simp [windows], (heven 24 (by decide) ?_ ?_).symm, h, h'⟩
    all_goals
      push_cast
      linarith
  · refine ⟨(28, 416 / 15, 256 / 9), by simp [windows], (heven 28 (by decide) ?_ ?_).symm, h, h'⟩
    all_goals
      push_cast
      linarith
  · have hc : 28 < npRound t := lt_npRound (by push_cast; linarith)
    have hc' : npRound t < 30 := npRound_lt (by push_cast; linarith)
    exact ⟨(29, 320 / 11, 320 / 11), by simp [windows], by change 29 = npRound t; omega,
      h.ge, h.le⟩
  · have hc : 29 < npRound t := lt_npRound (by push_cast; linarith)
    have hc' : npRound t < 35 := npRound_lt (by push_cast; linarith)
    generalize npRound t = c at *
    obtain rfl | rfl | rfl | rfl | rfl : c = 30 ∨ c = 31 ∨ c = 32 ∨ c = 33 ∨ c = 34 := by omega
    all_goals push_cast at hlow hhigh
    · exact ⟨(30, 448 / 15, 61 / 2), by simp [windows], rfl, h, by linarith⟩
    · exact ⟨(31, 61 / 2, 63 / 2), by simp [windows], rfl, by linarith, by linarith⟩
    · exact ⟨(32, 63 / 2, 65 / 2), by simp [windows], rfl, by linarith, by linarith⟩
    · exact ⟨(33, 65 / 2, 67 / 2), by simp [windows], rfl, by linarith, by linarith⟩
    · exact ⟨(34, 67 / 2, 448 / 13), by simp [windows], rfl, by linarith, h'⟩
  · have hc : 34 < npRound t := lt_npRound (by push_cast; linarith)
    have hc' : npRound t < 38 := npRound_lt (by push_cast; linarith)
    generalize npRound t = c at *
    obtain rfl | rfl | rfl : c = 35 ∨ c = 36 ∨ c = 37 := by omega
    all_goals push_cast at hlow hhigh
    · exact ⟨(35, 69 / 2, 71 / 2), by simp [windows], rfl, h.le, by linarith⟩
    · exact ⟨(36, 71 / 2, 73 / 2), by simp [windows], rfl, by linarith, by linarith⟩
    · exact ⟨(37, 73 / 2, 75 / 2), by simp [windows], rfl, by linarith, by linarith⟩

/-- When the scale is rounded to between 26 and 34, the codes 3, ±5, 6 and ±7 leave only the
windows. -/
theorem faithfulScale_of_mem_Icc {c : ℤ} {t : ℚ} (hc : 26 ≤ c) (hle : c ≤ 34)
    (hround : |c - t| ≤ 1 / 2) (hcode : ∀ q ∈ codes, LossWithin c t q) :
  FaithfulScale t
  := by
  obtain ⟨hlow, hhigh⟩ := abs_le.mp hround
  have hthree := (lossWithin_iff.mp (hcode 3 (by decide))).1
  have hfive := (lossWithin_iff.mp (hcode (-5) (by decide))).1
  have hseven := (lossWithin_iff.mp (hcode (-7) (by decide))).1
  obtain rfl | rfl | rfl | rfl | hc : c = 26 ∨ c = 27 ∨ c = 28 ∨ c = 29 ∨ 30 ≤ c := by omega
  · norm_num at hfive hthree
    linarith
  · have hfirst := (lossWithin_iff.mp (hcode (-3) (by decide))).1
    have hlast := (lossWithin_iff.mp (hcode 7 (by decide))).1
    norm_num at hfirst hlast
    linarith
  · have hlast := (lossWithin_iff.mp (hcode 5 (by decide))).1
    norm_num at hseven hlast
    exact .inr (.inr (.inl ⟨by linarith, by linarith⟩))
  · have hlast := (lossWithin_iff.mp (hcode 6 (by decide))).1
    norm_num at hfive hlast
    exact .inr (.inr (.inr (.inl (by linarith))))
  · refine .inr (.inr (.inr (.inr (.inl ⟨?_, ?_⟩))))
    · rcases hc.eq_or_lt with rfl | hlt
      · norm_num at hseven
        linarith
      · have hge : (31 : ℚ) ≤ c := by exact_mod_cast hlt
        linarith
    · rcases hle.eq_or_lt with rfl | hlt
      · have hlast := (lossWithin_iff.mp (hcode 7 (by decide))).1
        norm_num at hlast
        linarith
      · have hle' : (c : ℚ) ≤ 33 := by exact_mod_cast Int.lt_add_one_iff.mp hlt
        linarith

/-- When the scale is rounded to 34 or less, all codes are faithful only in the windows. -/
theorem faithfulScale_of_lossWithin {t : ℚ} (hpos : 0 < t)
    (h : ∀ q ∈ codes, LossWithin (npRound t) t q) :
  FaithfulScale t
  := by
  rcases lt_or_ge (69 / 2) t with hlarge | hsmall
  · exact .inr (.inr (.inr (.inr (.inr hlarge))))
  have hround := abs_npRound_sub_le t
  obtain ⟨hlow, hhigh⟩ := abs_le.mp hround
  have hnonneg : 0 ≤ npRound t := (npRound_mem (b := 35) (by push_cast; linarith)
    (by push_cast; linarith)).1
  have hle : npRound t ≤ 34 := by
    rcases hsmall.eq_or_lt with rfl | hlt
    · apply le_of_eq (npRound_eq_of_even (by decide) _)
      norm_num [abs_le]
    · have hlt' : npRound t < 35 := npRound_lt (by push_cast; linarith)
      omega
  generalize npRound t = c at *
  have hcases : c = 0 ∨ c = 16 ∨ c = 24 ∨ 26 ≤ c ∨ ∃ e ∈ lossyCodes, e.1 = c := by
    interval_cases c <;> decide
  rcases hcases with rfl | rfl | rfl | hc | ⟨e, he, rfl⟩
  · have hseven := (lossWithin_iff.mp (h 7 (by decide))).1
    norm_num at hseven
    linarith
  · push_cast at hlow hhigh
    exact .inl ⟨by linarith, by linarith⟩
  · push_cast at hlow hhigh
    exact .inr (.inl ⟨by linarith, by linarith⟩)
  · apply faithfulScale_of_mem_Icc hc hle hround h
  · exact absurd (h e.2 (lossyCodes_spec e he).1) (not_lossWithin_of_lossyCode he hround)

/-- All codes are faithful exactly at these scales. -/
theorem forall_lossWithin_iff {t : ℚ} (hpos : 0 < t) :
  (∀ q ∈ codes, LossWithin (npRound t) t q) ↔ FaithfulScale t
  := by
  constructor
  · apply faithfulScale_of_lossWithin hpos
  · intro h q hq
    rcases lt_or_ge t 37 with hsmall | hlarge
    · obtain ⟨e, he, hround, hlow, hhigh⟩ := exists_window h hsmall
      obtain ⟨hfirst, hlast⟩ := lossWithin_windows e he q hq
      rw [← hround]
      apply lossWithin_of_endpoints hfirst hlast hlow hhigh
    · apply lossWithin_of_large hlarge hq

/-! ### Groups of a given magnitude -/

theorem groupAbs_le {groupSize : ℕ} {w : ℕ → ℚ} {g : ℕ} {m : ℚ} (hm : 0 ≤ m)
    (h : ∀ i < groupSize, |w (g * groupSize + i)| ≤ m) :
  groupAbs groupSize w g ≤ m
  := Levels.absMax_le_iff.mpr ⟨hm, h⟩

theorem rtnScale_of_groupAbs {w : ℕ → ℚ} {g : ℕ} {m : ℚ} (hm : 1 / 10 ^ 8 ≤ m)
    (hw : groupAbs grp w g = m) :
  rtnScale grp w g = m / 7
  := by rw [rtnScale, groupMaxAbs_eq, hw, max_eq_left hm]

/-- A row whose group `g` begins with its largest weight `m` and a weight of the code `q`. -/
def codeRow (g : ℕ) (m : ℚ) (q : ℤ) (c : ℕ) : ℚ :=
  if c = g * grp then m else if c = g * grp + 1 then q * (m / 7) else 0

theorem groupAbs_codeRow (g : ℕ) {m : ℚ} (hm : 0 ≤ m) {q : ℤ} (hq : q ∈ codes) :
  groupAbs grp (codeRow g m q) g = m
  := by
  obtain ⟨hlow, hhigh⟩ := mem_codes.mp hq
  have hcode : |(q : ℚ)| ≤ 7 := abs_le.mpr ⟨by exact_mod_cast hlow, by exact_mod_cast hhigh⟩
  apply le_antisymm
  · apply groupAbs_le hm
    intro i _
    unfold codeRow
    split_ifs
    · rw [abs_of_nonneg hm]
    · have hseven : (0 : ℚ) ≤ m / 7 := by linarith
      rw [abs_mul, abs_of_nonneg hseven]
      have hmul := mul_le_mul_of_nonneg_right hcode hseven
      linarith
    · rw [abs_zero]
      exact hm
  · have hfirst := abs_le_groupAbs (w := codeRow g m q) (g := g) grp_pos
    rw [Nat.add_zero, codeRow, if_pos rfl, abs_of_nonneg hm] at hfirst
    exact hfirst

theorem rtnCode_codeRow (g : ℕ) {m : ℚ} (hm : 1 / 10 ^ 8 ≤ m) {q : ℤ} (hq : q ∈ codes) :
  rtnCode grp (codeRow g m q) (g * grp + 1) = q
  := by
  have hpos : 0 < m := lt_of_lt_of_le (by norm_num) hm
  have hsecond : codeRow g m q (g * grp + 1) = q * (m / 7) := by
    rw [codeRow, if_neg (Nat.succ_ne_self _), if_pos rfl]
  have hseven : m / 7 ≠ 0 := by
    apply div_ne_zero hpos.ne'
    norm_num
  have hi : 1 < grp := by decide
  rw [(rtnCode_eq (w := codeRow g m q) (g := g) hi).1, hsecond,
    rtnScale_of_groupAbs hm (groupAbs_codeRow g hpos.le hq), mul_div_cancel_right₀ _ hseven,
    npRound_intCast]

section Magnitude

variable {inFeatures g : ℕ} {m : ℚ}

/-- In a group whose largest absolute value `m` lies between `1e-8` and `13.8`, nothing wraps,
and a weight is faithful exactly when its code loses at most half a step.  All weights of all
such groups are faithful exactly when `64 * m / 7` lies in one of the windows below 37, or
beyond `69 / 2`. -/
theorem exportedWeights_faithful_iff (hcols : grp ∣ inFeatures) (hg : g < inFeatures / grp)
    (hm : 1 / 10 ^ 8 ≤ m) (hm' : m ≤ 69 / 5) :
  (∀ w, groupAbs grp w g = m → ∀ i < grp,
    hardwareWeight w (g * grp + i)
        = (rtnCode grp w (g * grp + i) * (rtnScaleByte grp w g).toInt) >>> (4 : ℕ)
      ∧ (FaithfulWeight inFeatures w (g * grp + i)
        ↔ LossWithin (npRound (64 * (m / 7))) (64 * (m / 7)) (rtnCode grp w (g * grp + i))))
  ∧ ((∀ w, groupAbs grp w g = m → ∀ i < grp, FaithfulWeight inFeatures w (g * grp + i))
    ↔ FaithfulScale (64 * (m / 7)))
  := by
  have hpos : 0 < m := lt_of_lt_of_le (by norm_num) hm
  have hscale : 64 * (m / 7) ≤ 127 := by linarith
  have hiff : ∀ w, groupAbs grp w g = m → ∀ i < grp,
      FaithfulWeight inFeatures w (g * grp + i)
        ↔ LossWithin (npRound (64 * (m / 7))) (64 * (m / 7)) (rtnCode grp w (g * grp + i)) := by
    intro w hw i hi
    have hs := rtnScale_of_groupAbs hm hw
    have hweight := faithfulWeight_iff (w := w) hcols hg hi (by rw [hs]; exact hscale)
    rwa [hs] at hweight
  refine ⟨fun w hw i hi => ⟨?_, hiff w hw i hi⟩, ?_⟩
  · obtain ⟨hbyte, hweight⟩ := hardwareWeight_eq (w := w) hi
      (by rw [rtnScale_of_groupAbs hm hw]; exact hscale)
    rw [hbyte, hweight]
  · rw [← forall_lossWithin_iff (by linarith)]
    constructor
    · intro h q hq
      have hw := groupAbs_codeRow g hpos.le hq
      have hloss := (hiff _ hw 1 (by decide)).mp (h _ hw 1 (by decide))
      rwa [rtnCode_codeRow g hm hq] at hloss
    · intro h w hw i hi
      apply (hiff w hw i hi).mpr (h _ _)
      obtain ⟨-, hlow, hhigh⟩ := rtnCode_eq (w := w) (g := g) hi
      exact mem_codes.mpr ⟨hlow, hhigh⟩

end Magnitude

/-- A group of magnitude 7, whose scale is one, is faithful. -/
theorem exportedWeights_faithful_seven :
  FaithfulWeight 960 (fun _ => 7) (0 * grp + 5)
  := by
  have hcols : grp ∣ 960 := by decide
  have hg : 0 < 960 / grp := by decide
  have hm : 1 / 10 ^ 8 ≤ (7 : ℚ) := by norm_num
  have hiff := (exportedWeights_faithful_iff hcols hg hm (by norm_num)).2
  have habs : groupAbs grp (fun _ => 7) 0 = 7 := by decide +kernel
  apply hiff.mpr _ _ habs 5 (by decide)
  norm_num [FaithfulScale]

/-- The scale of a group of magnitude `0.05` is exported as zero, and with it the group. -/
theorem not_faithfulWeight_twentieth :
  hardwareWeight (fun _ => 1 / 20) (0 * grp + 0) = 0
    ∧ ¬ FaithfulWeight 960 (fun _ => 1 / 20) (0 * grp + 0)
  := by
  have hscale : 64 * rtnScale grp (fun _ => 1 / 20) 0 ≤ 127 := by decide +kernel
  constructor
  · rw [(hardwareWeight_eq (by decide) hscale).2]
    decide +kernel
  · rw [faithfulWeight_iff (by decide) (by decide) (by decide) hscale]
    decide +kernel

end Kv260
