import SmolVlm2Kv260.Kernel.RsqrtAccuracy
import SmolVlm2Kv260.Kernel.SinSymmetry
import SmolVlm2Kv260.Kernel.VitSoftmax
import SmolVlm2Kv260.Memory.Registers

/-!
# The registers of the approximations

The functions of `approx_math.h` with every variable in a register of its type.  A mask of the
low bits is a remainder.  Within the ranges of their arguments no register loses anything, and
no function reads beyond its table, so that they compute what they compute in unbounded integers.
-/

set_option autoImplicit false

namespace Kv260.FixedWidth

open Registers Traced Interpolation

/-! ### The functions -/

/-- The loop of `u32_msb_index`, from bit `n - 1` down. -/
def msbLoop (x : ℤ) : ℕ → ℤ
  | 0 => 0
  | n + 1 => if x.toNat.testBit n then n else msbLoop x n

/-- `u32_msb_index`. -/
def u32MsbIndex (x : ℤ) : Traced ℤ := assign (.int 32) (msbLoop x 32)

/-- `approx_rsqrt_q15`. -/
def approxRsqrtQ15 (x : ℤ) : Traced ℤ :=
  if x ≤ 1 then assign (.int 16) q15OneI16
  else do
    let msb ← u32MsbIndex x
    let normQ6 ← assign (.uint 32)
      (if 6 ≤ msb then x >>> (msb - 6).toNat else x <<< (6 - msb).toNat)
    let normQ6 ← assignIf (normQ6 < 64) (.uint 32) 64 normQ6
    let normQ6 ← assignIf (127 < normQ6) (.uint 32) 127 normQ6
    let entry ← read kRsqrtLutQ15 (normQ6 - 64)
    let value ← assign (.int 32) entry
    let value ← assignIf (msb % 2 = 1) (.int 32) ((value * q15InvSqrt2) >>> (15 : ℕ)) value
    let value ← assign (.int 32) (value >>> (msb / 2).toNat)
    let value ← assignIf (value < 1) (.int 32) 1 value
    assign (.int 16) value

/-- `approx_exp_q15`. -/
def approxExpQ15 (xScaled : ℤ) : Traced ℤ :=
  if 0 ≤ xScaled then assign (.int 16) q15OneI16
  else do
    let dist ← assign (.int 32) (-xScaled)
    if 512 ≤ dist then assign (.int 16) 0
    else do
      let entry ← read kExpNegLutQ15 dist
      assign (.int 16) entry

/-- `approx_silu_q8_8`. -/
def approxSiluQ8_8 (xScaled : ℤ) : Traced ℤ :=
  if xScaled ≤ -siluXClamp then do
    let entry ← read kSiluLutQ8_8 0
    assign (.int 16) entry
  else if siluXClamp ≤ xScaled then do
    let entry ← read kSiluLutQ8_8 (385 - 1)
    assign (.int 16) entry
  else do
    let shifted ← assign (.int 32) (xScaled + siluXClamp)
    let idx ← assign (.int 32) (shifted >>> (2 : ℕ))
    let frac ← assign (.int 32) (shifted % 2 ^ 2)
    let entry ← read kSiluLutQ8_8 idx
    let y0 ← assign (.int 32) entry
    let entry ← read kSiluLutQ8_8 (idx + 1)
    let y1 ← assign (.int 32) entry
    let interp ← assign (.int 32) (y0 + ((y1 - y0) * frac + 2) >>> (2 : ℕ))
    assign (.int 16) interp

/-- `quarter_wave_lookup_q15`. -/
def quarterWaveLookupQ15 (phaseQuarter : ℤ) : Traced ℤ := do
  let quarter ← assign (.uint 31) (2 ^ ropeQuarterBits)
  if quarter ≤ phaseQuarter then assign (.int 16) q15OneI16
  else do
    let idx ← assign (.uint 9) (phaseQuarter >>> ropeInterpBits)
    let frac ← assign (.uint ropeInterpBits) (phaseQuarter % 2 ^ ropeInterpBits)
    let entry ← read kQuarterSinLutQ15 idx
    let y0 ← assign (.int 32) entry
    let entry ← read kQuarterSinLutQ15 (idx + 1)
    let y1 ← assign (.int 32) entry
    let delta ← assign (.int 32) (y1 - y0)
    let wide ← assign (.int 64) delta
    let part ← assign (.int 32) ((wide * frac + 2 ^ (ropeInterpBits - 1)) >>> ropeInterpBits)
    let interp ← assign (.int 32) (y0 + part)
    assign (.int 16) interp

/-- `sin_turns_q15`. -/
def sinTurnsQ15 (phaseTurns : ℤ) : Traced ℤ := do
  let quadrant ← assign (.uint 2) (phaseTurns >>> ropeQuarterBits)
  let offset ← assign (.uint 30) (phaseTurns % 2 ^ ropeQuarterBits)
  let reflected ← assign (.uint 31)
    (if quadrant % 2 = 1 then 2 ^ ropeQuarterBits - offset else offset)
  let mag ← quarterWaveLookupQ15 reflected
  if quadrant / 2 % 2 = 1 then assign (.int 16) (-mag) else pure mag

/-- `cos_turns_q15`.  The sum is taken modulo a full turn. -/
def cosTurnsQ15 (phaseTurns : ℤ) : Traced ℤ :=
  sinTurnsQ15 ((Reg.uint 32).wrap (phaseTurns + 2 ^ ropeQuarterBits))

/-- `approx_rope_sincos_q15`: the cosine and the sine.  The phase is taken modulo a full turn. -/
def approxRopeSincosQ15 (pairIdx pos : ℤ) : Traced (ℤ × ℤ) := do
  let pos ← assign (.uint 32) pos
  let pos ← assign (.uint 64) pos
  let entry ← read (kRopeStepTurnsQ32.map Nat.cast) pairIdx
  let turn ← assign (.uint 64) entry
  let phase ← assign (.uint 64) (pos * turn)
  let phaseTurns := (Reg.uint 32).wrap phase
  let sinV ← sinTurnsQ15 phaseTurns
  let cosV ← cosTurnsQ15 phaseTurns
  return (cosV, sinV)

/-! ### The sizes of the tables -/

theorem length_kRsqrtLutQ15 :
  kRsqrtLutQ15.length = 64
  := by
  decide +kernel

theorem length_kExpNegLutQ15 :
  kExpNegLutQ15.length = 512
  := by
  decide +kernel

theorem length_kSiluLutQ8_8 :
  kSiluLutQ8_8.length = 385
  := by
  decide +kernel

theorem length_kRopeStepTurnsQ32 :
  (kRopeStepTurnsQ32.map (Nat.cast : ℕ → ℤ)).length = 32
  := by
  decide +kernel

/-! ### The reciprocal root -/

theorem msbLoop_eq {n : ℕ} (hn : 0 < n) {k : ℕ} (h : n < 2 ^ k) :
  msbLoop n k = n.log2
  := by
  induction k with
  | zero => omega
  | succ k ih =>
    rw [msbLoop, Int.toNat_natCast]
    split
    case isTrue bit =>
      have highest : n.log2 = k :=
        (Nat.log2_eq_iff (by omega)).mpr ⟨Nat.ge_two_pow_of_testBit bit, h⟩
      rw [highest]
    case isFalse bit =>
      apply ih
      rw [Nat.testBit_eq_decide_div_mod_eq, decide_eq_true_eq] at bit
      have top : n / 2 ^ k < 2 := by
        rw [Nat.div_lt_iff_lt_mul (Nat.two_pow_pos k), ← pow_succ']
        exact h
      apply (Nat.div_eq_zero_iff_lt (Nat.two_pow_pos k)).mp
      generalize n / 2 ^ k = quotient at *
      omega

theorem exact_u32MsbIndex {n : ℕ} (hn : 0 < n) (h : n < 2 ^ 32) :
  (u32MsbIndex n).Exact n.log2
  := by
  have exponent : n.log2 < 32 := (Nat.log2_lt (by omega)).mpr h
  rw [u32MsbIndex, msbLoop_eq hn h]
  apply exact_assign
  refine ⟨by decide, ?_, ?_⟩ <;> omega

/-- The argument is shifted until it has seven bits. -/
theorem shifted_eq (n : ℕ) :
  (if 6 ≤ (n.log2 : ℤ) then (n : ℤ) >>> ((n.log2 : ℤ) - 6).toNat
    else (n : ℤ) <<< (6 - (n.log2 : ℤ)).toNat) = (64 * n / 2 ^ n.log2 : ℕ)
  := by
  have leading := normQ6_eq n
  rw [Kv260.u32MsbIndex] at leading
  split
  case isTrue h =>
    have count : ((n.log2 : ℤ) - 6).toNat = n.log2 - 6 := by omega
    rw [if_pos (by omega)] at leading
    rw [count, ← Int.natCast_shiftRight, leading]
  case isFalse h =>
    have count : (6 - (n.log2 : ℤ)).toNat = 6 - n.log2 := by omega
    rw [if_neg (by omega)] at leading
    rw [count, ← Int.natCast_shiftLeft, leading]

/-- Half of the exponent. -/
theorem toNat_natCast_div_two (e : ℕ) :
  ((e : ℤ) / 2).toNat = e / 2
  := by omega

/-- The parity of the exponent. -/
theorem natCast_mod_two_eq_one (e : ℕ) :
  ((e : ℤ) % 2 = 1) = (e % 2 = 1)
  := propext (by omega)

theorem exact_approxRsqrtQ15 {n : ℕ} (h : n < 2 ^ 32) :
  (approxRsqrtQ15 n).Exact (Kv260.approxRsqrtQ15 n)
  := by
  rw [approxRsqrtQ15_eq, approxRsqrtQ15]
  rcases Nat.lt_or_ge n 2 with small | large
  · rw [if_pos (by omega), rsqrtValue, if_pos (by omega)]
    apply exact_assign
    decide
  · obtain ⟨low, high⟩ := leading_mem large
    have mantissa := rsqrtMantissa_mem n
    have value := rsqrtValue_mem n
    have shifted := shiftRight_mem mantissa.1 mantissa.2 (n.log2 / 2)
    have entry := kRsqrtLutQ15_mem (64 * n / 2 ^ n.log2 - 64) (by omega)
    have index : ((64 * n / 2 ^ n.log2 : ℕ) - 64 : ℤ).toNat = 64 * n / 2 ^ n.log2 - 64 := by omega
    have length := length_kRsqrtLutQ15
    rw [rsqrtValue, if_neg (by omega), Kv260.u32MsbIndex] at value ⊢
    rw [rsqrtMantissa_eq_leading large] at mantissa shifted value ⊢
    rw [if_neg (by omega)]
    refine (exact_u32MsbIndex (by omega) h).bind ?_
    rw [shifted_eq]
    refine (exact_uint (by omega) (by omega)).bind ?_
    refine (exact_assignIf_of_not (by omega)).bind ?_
    refine (exact_assignIf_of_not (by omega)).bind ?_
    refine (exact_read ⟨by omega, by omega⟩).bind ?_
    rw [index]
    refine (exact_int (by decide) (by omega) (by omega)).bind ?_
    refine (exact_assignIf ?_).bind ?_
    · intro taken
      rw [if_pos (by omega)] at mantissa
      exact ⟨by decide, by omega, by omega⟩
    · simp only [natCast_mod_two_eq_one, toNat_natCast_div_two]
      refine (exact_int (by decide) (by omega) (by omega)).bind ?_
      refine (exact_assignIf fun _ => by decide).bind ?_
      generalize (if n.log2 % 2 = 1 then (_ : ℤ) else _) >>> (n.log2 / 2) = root at *
      have largest : (if root < 1 then 1 else root) = max root 1 := by
        split <;> omega
      rw [largest]
      exact exact_int (by decide) (by omega) (by omega)

/-! ### The exponential and SiLU -/

theorem exact_approxExpQ15 {x : ℤ} (h : -2 ^ 31 < x) (h' : x < 2 ^ 31) :
  (approxExpQ15 x).Exact (Kv260.approxExpQ15 x)
  := by
  have value := approxExpQ15_mem x
  rw [approxExpQ15_eq h h', expNeg, q15OneI16] at value
  rw [approxExpQ15_eq h h', expNeg, approxExpQ15]
  split
  case isTrue => exact exact_assign (by decide)
  case isFalse negative =>
    rw [if_neg negative] at value
    refine (exact_int (by decide) (by omega) (by omega)).bind ?_
    split
    case isTrue => exact exact_assign (by decide)
    case isFalse near =>
      rw [if_neg near] at value
      have length := length_kExpNegLutQ15
      refine (exact_read ⟨by omega, by omega⟩).bind ?_
      exact exact_int (by decide) (by omega) (by omega)

theorem kSiluLutQ8_8_mem (i : ℕ) :
  -71 ≤ kSiluLutQ8_8.getD i 0 ∧ kSiluLutQ8_8.getD i 0 ≤ 3072
  := by
  have entries : ∀ y ∈ kSiluLutQ8_8, -71 ≤ y ∧ y ≤ 3072 := by decide +kernel
  exact Blocks.forall_getD entries (by decide) i

theorem half_mem :
  (0 : ℤ) ≤ 2 ∧ (2 : ℤ) < (4 : ℕ)
  := by
  decide

/-- SiLU is interpolated between two entries of the table. -/
theorem silu_interpolate_mem (n : ℕ) :
  -71 ≤ interpolate (kSiluLutQ8_8.getD · 0) 4 2 n
    ∧ interpolate (kSiluLutQ8_8.getD · 0) 4 2 n ≤ 3072
  := by
  apply interpolate_mem half_mem
  · apply kSiluLutQ8_8_mem
  · apply kSiluLutQ8_8_mem

theorem approxSiluQ8_8_eq {n : ℕ} (hpos : 0 < n) (hn : n < 1536) :
  Kv260.approxSiluQ8_8 (n - 768) = interpolate (kSiluLutQ8_8.getD · 0) 4 2 n
  := by
  have value := silu_interpolate_mem n
  have shifted : ((n : ℤ) - 768 + 768).toNat = n := by omega
  rw [Kv260.approxSiluQ8_8, siluXClamp, if_neg (by omega), if_neg (by omega), shifted]
  apply Eq.trans _ (apInt_of_mem (show 0 < 16 by decide)
    (x := interpolate (kSiluLutQ8_8.getD · 0) 4 2 n) (by omega) (by omega))
  rw [interpolate, part]
  simp only [Int.shiftRight_eq_div_pow]

theorem exact_approxSiluQ8_8 {x : ℤ} (h : -2 ^ 31 ≤ x) (h' : x < 2 ^ 31) :
  (approxSiluQ8_8 x).Exact (Kv260.approxSiluQ8_8 x)
  := by
  rcases le_or_gt x (-siluXClamp) with low | low
  · rw [Kv260.approxSiluQ8_8, approxSiluQ8_8, if_pos low, if_pos low]
    refine (exact_read (by decide +kernel)).bind ?_
    exact exact_assign (by decide +kernel)
  rcases le_or_gt siluXClamp x with high | high
  · rw [Kv260.approxSiluQ8_8, approxSiluQ8_8, if_neg (not_le.mpr low), if_neg (not_le.mpr low),
      if_pos high, if_pos high]
    refine (exact_read (by decide +kernel)).bind ?_
    exact exact_assign (by decide +kernel)
  · rw [approxSiluQ8_8, if_neg (not_le.mpr low), if_neg (not_le.mpr high)]
    rw [siluXClamp] at low high ⊢
    obtain ⟨n, hn⟩ : ∃ n : ℕ, x + 768 = n := ⟨(x + 768).toNat, by omega⟩
    obtain rfl : x = n - 768 := by omega
    have value := silu_interpolate_mem n
    have first := kSiluLutQ8_8_mem (n / 4)
    have second := kSiluLutQ8_8_mem (n / 4 + 1)
    have length := length_kSiluLutQ8_8
    have idx : (n : ℤ) >>> (2 : ℕ) = (n / 4 : ℕ) := natCast_shiftRight n 2
    have next : ((n / 4 : ℕ) + 1 : ℤ).toNat = n / 4 + 1 := by omega
    rw [approxSiluQ8_8_eq (by omega) (by omega), hn]
    refine (exact_int (by decide) (by omega) (by omega)).bind ?_
    rw [idx]
    refine (exact_int (by decide) (by omega) (by omega)).bind ?_
    refine (exact_int (by decide) (by omega) (by omega)).bind ?_
    refine (exact_read ⟨by omega, by omega⟩).bind ?_
    rw [Int.toNat_natCast]
    refine (exact_int (by decide) (by omega) (by omega)).bind ?_
    refine (exact_read ⟨by omega, by omega⟩).bind ?_
    rw [next]
    refine (exact_int (by decide) (by omega) (by omega)).bind ?_
    have interp : kSiluLutQ8_8.getD (n / 4) 0 + ((kSiluLutQ8_8.getD (n / 4 + 1) 0
        - kSiluLutQ8_8.getD (n / 4) 0) * ((n : ℤ) % 2 ^ 2) + 2) >>> (2 : ℕ)
        = interpolate (kSiluLutQ8_8.getD · 0) 4 2 n := by
      rw [interpolate, part, Int.shiftRight_eq_div_pow]
      rfl
    rw [interp]
    refine (exact_int (by decide) (by omega) (by omega)).bind ?_
    exact exact_int (by decide) (by omega) (by omega)

/-! ### Sines and cosines -/

theorem exact_quarterWaveLookupQ15 {n : ℕ} (h : n ≤ 2 ^ 30) :
  (quarterWaveLookupQ15 n).Exact (Kv260.quarterWaveLookupQ15 n)
  := by
  rw [quarterWaveLookupQ15]
  refine (exact_uint (by decide) (by decide)).bind ?_
  split
  case isTrue full =>
    obtain rfl : n = 2 ^ 30 := by
      rw [ropeQuarterBits] at full
      omega
    exact exact_assign (by decide)
  case isFalse within =>
    rw [ropeQuarterBits] at within
    have value := quarterSin_interpolate_mem n
    have first := quarterSin_mem (n / 2 ^ 21)
    have second := quarterSin_mem (n / 2 ^ 21 + 1)
    have length := length_kQuarterSinLutQ15
    have idx : (n : ℤ) >>> ropeInterpBits = (n / 2 ^ 21 : ℕ) := natCast_shiftRight n 21
    have next : ((n / 2 ^ 21 : ℕ) + 1 : ℤ).toNat = n / 2 ^ 21 + 1 := by omega
    rw [quarterWaveLookupQ15_eq h, idx, ropeInterpBits]
    refine (exact_uint (by omega) (by omega)).bind ?_
    refine (exact_uint (by omega) (by omega)).bind ?_
    refine (exact_read ⟨by omega, by omega⟩).bind ?_
    rw [Int.toNat_natCast, ← quarterSin]
    refine (exact_int (by decide) (by omega) (by omega)).bind ?_
    refine (exact_read ⟨by omega, by omega⟩).bind ?_
    rw [next, ← quarterSin]
    refine (exact_int (by decide) (by omega) (by omega)).bind ?_
    refine (exact_int (by decide) (by omega) (by omega)).bind ?_
    refine (exact_int (by decide) (by omega) (by omega)).bind ?_
    have rises : 0 ≤ quarterSin (n / 2 ^ 21 + 1) - quarterSin (n / 2 ^ 21) := by
      have entries := quarterSin_le_succ (n / 2 ^ 21) (by omega)
      omega
    have inside := part_mem_of_nonneg half_step_mem rises (Nat.mod_lt n (Nat.two_pow_pos 21))
    have shifted : ((quarterSin (n / 2 ^ 21 + 1) - quarterSin (n / 2 ^ 21)) * ((n : ℤ) % 2 ^ 21)
        + 2 ^ (21 - 1)) >>> (21 : ℕ) = part (2 ^ 21) (2 ^ 20)
          (quarterSin (n / 2 ^ 21 + 1) - quarterSin (n / 2 ^ 21)) (n % 2 ^ 21) := by
      rw [part, Int.shiftRight_eq_div_pow]
      rfl
    rw [shifted]
    refine (exact_int (by decide) (by omega) (by omega)).bind ?_
    rw [← interpolate]
    refine (exact_int (by decide) (by omega) (by omega)).bind ?_
    exact exact_int (by decide) (by omega) (by omega)

/-- The folded phase, computed in integers. -/
theorem reflectedPhase_eq (n : ℕ) :
  (if ((n / 2 ^ 30 : ℕ) : ℤ) % 2 = 1 then (2 : ℤ) ^ 30 - (n : ℤ) % 2 ^ 30 else (n : ℤ) % 2 ^ 30)
    = (reflectedPhase n : ℤ)
  := by
  rw [reflectedPhase]
  split <;> split <;> omega

theorem exact_sinTurnsQ15 {n : ℕ} (h : n < 2 ^ 32) :
  (sinTurnsQ15 n).Exact (Kv260.sinTurnsQ15 n)
  := by
  have bounded := reflectedPhase_le n
  have value := quarterWaveLookupQ15_mem bounded
  have quadrant : (n : ℤ) >>> ropeQuarterBits = (n / 2 ^ 30 : ℕ) := natCast_shiftRight n 30
  rw [sinTurnsQ15_eq, sinTurnsQ15, quadrant, ropeQuarterBits]
  refine (exact_uint (by omega) (by omega)).bind ?_
  refine (exact_uint (by omega) (by omega)).bind ?_
  rw [reflectedPhase_eq]
  refine (exact_uint (by omega) (by omega)).bind ?_
  refine (exact_quarterWaveLookupQ15 bounded).bind ?_
  split
  case isTrue second_half =>
    rw [if_pos (by omega)]
    exact exact_int (by decide) (by omega) (by omega)
  case isFalse first_half =>
    rw [if_neg (by omega)]
    exact exact_pure _

theorem exact_cosTurnsQ15 (n : ℕ) :
  (cosTurnsQ15 n).Exact (Kv260.cosTurnsQ15 n)
  := by
  have turned : (Reg.uint 32).wrap ((n : ℤ) + 2 ^ ropeQuarterBits)
      = ((n + 2 ^ ropeQuarterBits) % 2 ^ 32 : ℕ) := by
    rw [Reg.wrap, ropeQuarterBits]
    omega
  rw [cosTurnsQ15, turned]
  apply exact_sinTurnsQ15
  omega

theorem kRopeStepTurnsQ32_mem :
  ∀ i < 32, (kRopeStepTurnsQ32.map Nat.cast).getD i (0 : ℤ) = kRopeStepTurnsQ32.getD i 0 ∧
    kRopeStepTurnsQ32.getD i 0 < 2 ^ 30
  := by
  decide +kernel

theorem exact_approxRopeSincosQ15 {pairIdx pos : ℕ} (h : pairIdx < 32) (h' : pos < 2 ^ 31) :
  (approxRopeSincosQ15 pairIdx pos).Exact (Kv260.approxRopeSincosQ15 pairIdx pos)
  := by
  obtain ⟨entry, bound⟩ := kRopeStepTurnsQ32_mem pairIdx h
  have length := length_kRopeStepTurnsQ32
  have product : pos * kRopeStepTurnsQ32.getD pairIdx 0 < 2 ^ 31 * 2 ^ 30 :=
    Nat.mul_lt_mul_of_lt_of_lt h' bound
  rw [approxRopeSincosQ15, Kv260.approxRopeSincosQ15]
  refine (exact_uint (by omega) (by omega)).bind ?_
  refine (exact_uint (by omega) (by omega)).bind ?_
  refine (exact_read ⟨by omega, by omega⟩).bind ?_
  rw [Int.toNat_natCast, entry]
  generalize kRopeStepTurnsQ32.getD pairIdx 0 = turn at *
  refine (exact_uint (by omega) (by omega)).bind ?_
  rw [← Nat.cast_mul]
  refine (exact_uint (by omega) (by omega)).bind ?_
  have phase : (Reg.uint 32).wrap (pos * turn : ℕ) = (pos * turn % 2 ^ 32 : ℕ) := by
    rw [Reg.wrap]
    omega
  rw [phase]
  refine (exact_sinTurnsQ15 (by omega)).bind ?_
  refine (exact_cosTurnsQ15 _).bind ?_
  exact exact_pure _

end Kv260.FixedWidth
