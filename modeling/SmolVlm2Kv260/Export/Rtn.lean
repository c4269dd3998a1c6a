import SmolVlm2Kv260.Arith.Levels
import SmolVlm2Kv260.Kernel.Common
import SmolVlm2Kv260.Process.Blocks
import Mathlib.Data.Rat.Floor
import Mathlib.Tactic.NormNum

/-!
# Rounding weights to four bits

`np_quantize_w4_rtn` of `quant_ops.py`, on exact rationals: the weights of a row are divided
by the scale of their group and rounded to `-8, …, 7`; two of them share a byte, and each
group has a scale and a zero point of one byte.
-/

set_option autoImplicit false

namespace Kv260

open Blocks

/-- `np.round`: to the nearest integer, and to the even one in the middle. -/
def npRound (x : ℚ) : ℤ :=
  let r := x - ⌊x⌋
  if r < 1 / 2 then ⌊x⌋
  else if 1 / 2 < r then ⌊x⌋ + 1
  else if ⌊x⌋ % 2 = 0 then ⌊x⌋ else ⌊x⌋ + 1

theorem npRound_intCast (n : ℤ) :
  npRound n = n
  := by
  simp [npRound]

theorem npRound_def (x : ℚ) :
  npRound x = if x - ⌊x⌋ < 1 / 2 then ⌊x⌋
    else if 1 / 2 < x - ⌊x⌋ then ⌊x⌋ + 1
    else if ⌊x⌋ % 2 = 0 then ⌊x⌋ else ⌊x⌋ + 1
  := rfl

theorem abs_npRound_sub_le (x : ℚ) :
  |npRound x - x| ≤ 1 / 2
  := by
  have hfloor := Int.floor_le x
  have hlt := Int.lt_floor_add_one x
  rw [npRound_def, abs_le]
  split_ifs
  all_goals
    constructor
    · push_cast
      linarith
    · push_cast
      linarith

/-- `np.round` takes a nearest integer. -/
def npRounding : Levels.Rounding ℚ := ⟨npRound, abs_npRound_sub_le⟩

/-- A value in the middle is rounded to the even neighbour. -/
theorem npRound_eq_of_even {x : ℚ} {n : ℤ} (heven : n % 2 = 0) (h : |n - x| ≤ 1 / 2) :
  npRound x = n
  := by
  obtain ⟨hlow, hhigh⟩ := abs_le.mp h
  have hfloor : ⌊x⌋ = n ∨ ⌊x⌋ = n - 1 := by
    have hge : n - 1 ≤ ⌊x⌋ := Int.le_floor.mpr (by push_cast; linarith)
    have hlt : ⌊x⌋ < n + 1 := Int.floor_lt.mpr (by push_cast; linarith)
    omega
  rw [npRound_def]
  rcases hfloor with hfloor | hfloor
  · rw [hfloor]
    split_ifs with hless hmore
    · rfl
    · linarith
    · rfl
  · have hodd : ¬ (n - 1) % 2 = 0 := by omega
    rw [hfloor]
    push_cast
    split_ifs with hless hmore
    · linarith
    · omega
    · omega

/-- Rounding does not leave an interval with integer ends. -/
theorem npRound_mem {x : ℚ} {a b : ℤ} (ha : a ≤ x) (hb : x ≤ b) :
  a ≤ npRound x ∧ npRound x ≤ b
  := ⟨npRounding.le_round ha, npRounding.round_le hb⟩

theorem lt_npRound {x : ℚ} {n : ℤ} (h : n + 1 / 2 < x) :
  n < npRound x
  := npRounding.lt_round h

theorem npRound_lt {x : ℚ} {n : ℤ} (h : x < n - 1 / 2) :
  npRound x < n
  := npRounding.round_lt h

/-- `np.clip`. -/
def npClip (lo hi x : ℤ) : ℤ := min (max x lo) hi

/-! ### A row of weights -/

section Row

variable (groupSize : ℕ) (w : ℕ → ℚ)

/-- `max_abs` of group `g` of a row. -/
def groupMaxAbs (g : ℕ) : ℚ :=
  max ((List.range groupSize).foldl (fun m i => max m |w (g * groupSize + i)|) 0) (1 / 10 ^ 8)

/-- `scale` of group `g`. -/
def rtnScale (g : ℕ) : ℚ := groupMaxAbs groupSize w g / 7

/-- `stored` of column `c`. -/
def rtnStored (c : ℕ) : BitVec 8 :=
  BitVec.ofInt 8 (npClip (-8) 7 (npRound (w c / rtnScale groupSize w (c / groupSize))) + 8)

/-- Byte `b` of `packed`: the columns `2 * b` and `2 * b + 1`. -/
def rtnPacked (b : ℕ) : BitVec 8 :=
  (rtnStored groupSize w (2 * b) &&& 0x0F) ||| ((rtnStored groupSize w (2 * b + 1) &&& 0x0F) <<< 4)

/-- `scales` of group `g`. -/
def rtnScaleByte (g : ℕ) : BitVec 8 :=
  BitVec.ofInt 8 (npClip (-127) 127 (npRound (rtnScale groupSize w g * 64)))

/-- `zeros`. -/
def rtnZeroByte : BitVec 8 := 8

end Row

/-! ### Special groups -/

section Special

variable {groupSize : ℕ} {w : ℕ → ℚ} {g : ℕ} {x : ℚ}

theorem groupMaxAbs_const (hpos : 0 < groupSize) (hx : 1 / 10 ^ 8 ≤ |x|)
    (hw : ∀ i < groupSize, w (g * groupSize + i) = x) :
  groupMaxAbs groupSize w g = |x|
  := by
  have hmax := Levels.absMax_of_abs_eq (f := fun i => w (g * groupSize + i)) hpos fun i hi =>
    congrArg abs (hw i hi)
  have hgroup : groupMaxAbs groupSize w g
      = max (Levels.absMax groupSize fun i => w (g * groupSize + i)) (1 / 10 ^ 8) := rfl
  rw [hgroup, hmax, max_eq_left hx]

/-- A weight of zero is stored as 8, whatever the scale. -/
theorem rtnStored_zero {c : ℕ} (hw : w c = 0) :
  rtnStored groupSize w c = 8
  := by
  have hround : npRound 0 = 0 := npRound_intCast 0
  rw [rtnStored, hw, zero_div, hround]
  rfl

/-- Nothing is rounded in a group of integers, of which the largest is 7. -/
theorem rtnStored_intCast (hpos : 0 < groupSize) {v : ℕ → ℤ} (hw : ∀ i, w i = v i) {c : ℕ}
    (hle : ∀ i < groupSize, |v (c / groupSize * groupSize + i)| ≤ 7)
    (hmax : ∃ i < groupSize, |v (c / groupSize * groupSize + i)| = 7) :
  rtnStored groupSize w c = BitVec.ofInt 8 (v c + 8)
  := by
  obtain ⟨i, hi, hseven⟩ := hmax
  have habs : ∀ k, |w k| = (|v k| : ℤ) := by
    intro k
    rw [hw, Int.cast_abs]
  have hgroup : Levels.absMax groupSize (fun i => w (c / groupSize * groupSize + i)) = 7 := by
    apply le_antisymm
    · rw [Levels.absMax_le_iff]
      refine ⟨by norm_num, fun k hk => ?_⟩
      rw [habs]
      exact_mod_cast hle k hk
    · have hge := Levels.abs_le_absMax hi (fun i => w (c / groupSize * groupSize + i))
      rw [habs, hseven] at hge
      exact_mod_cast hge
  have hscale : rtnScale groupSize w (c / groupSize) = 1 := by
    have hfloor : (1 : ℚ) / 10 ^ 8 ≤ 7 := by norm_num
    rw [rtnScale, groupMaxAbs]
    change max (Levels.absMax groupSize fun i => w (c / groupSize * groupSize + i)) _ / 7 = 1
    rw [hgroup, max_eq_left hfloor]
    norm_num
  have hown := hle (c % groupSize) (Nat.mod_lt c hpos)
  rw [Nat.div_add_mod', abs_le] at hown
  have hclip : npClip (-8) 7 (v c) = v c := by
    rw [npClip]
    omega
  rw [rtnStored, hscale, div_one, hw, npRound_intCast, hclip]

/-- A group of ones is stored as 15. -/
theorem rtnStored_one {c : ℕ} (hpos : 0 < groupSize)
    (hw : ∀ i < groupSize, w (c / groupSize * groupSize + i) = 1) :
  rtnStored groupSize w c = 15
  := by
  have hc : w c = 1 := by
    have hself := hw (c % groupSize) (Nat.mod_lt c hpos)
    rwa [Nat.div_add_mod' c groupSize] at hself
  have hscale : rtnScale groupSize w (c / groupSize) = 1 / 7 := by
    rw [rtnScale, groupMaxAbs_const hpos (by norm_num) hw, abs_one]
  have hround : npRound 7 = 7 := npRound_intCast 7
  have hseven : (1 : ℚ) / (1 / 7) = 7 := by norm_num
  rw [rtnStored, hscale, hc, hseven, hround]
  rfl

end Special

end Kv260
