import SmolVlm2Kv260.Arith.Interpolation
import SmolVlm2Kv260.Kernel.ApproxMath
import SmolVlm2Kv260.Process.Blocks

/-!
# Sines and cosines of a full turn

`sin_turns_q15` folds a phase of 32 bits into the first quarter turn, where the sine is an
interpolated table.  The folding gives the symmetries of sine and cosine, the table the bounds
and the growth on the first quarter.
-/

set_option autoImplicit false

namespace Kv260

open Interpolation

/-! ### The quarter wave -/

/-- The entries of the table. -/
def quarterSin (i : ℕ) : ℤ := kQuarterSinLutQ15.getD i 0

theorem length_kQuarterSinLutQ15 :
  kQuarterSinLutQ15.length = 513
  := by
  decide +kernel

theorem quarterSin_mem (i : ℕ) :
  0 ≤ quarterSin i ∧ quarterSin i ≤ 32767
  := by
  have entries : ∀ y ∈ kQuarterSinLutQ15, 0 ≤ y ∧ y ≤ 32767 := by decide +kernel
  exact Blocks.forall_getD entries (by decide) i

theorem quarterSin_le_succ :
  ∀ i < 512, quarterSin i ≤ quarterSin (i + 1)
  := by
  have increasing : kQuarterSinLutQ15.IsChain (· ≤ ·) := by decide +kernel
  intro i hi
  apply getD_le_getD_succ increasing
  rw [length_kQuarterSinLutQ15]
  omega

/-- Half of a step is added before rounding down. -/
theorem half_step_mem :
  (0 : ℤ) ≤ 2 ^ 20 ∧ (2 ^ 20 : ℤ) < (2 ^ 21 : ℕ)
  := by
  decide

theorem quarterSin_interpolate_mem (r : ℕ) :
  0 ≤ interpolate quarterSin (2 ^ 21) (2 ^ 20) r
    ∧ interpolate quarterSin (2 ^ 21) (2 ^ 20) r ≤ 32767
  := by
  apply interpolate_mem half_step_mem
  · apply quarterSin_mem
  · apply quarterSin_mem

/-- The lookup interpolates, up to the full quarter, which is the last entry. -/
theorem quarterWaveLookupQ15_eq {r : ℕ} (hr : r ≤ 2 ^ 30) :
  quarterWaveLookupQ15 r = interpolate quarterSin (2 ^ 21) (2 ^ 20) r
  := by
  rw [quarterWaveLookupQ15]
  split
  case isTrue h =>
    obtain rfl : r = 512 * 2 ^ 21 := Nat.le_antisymm hr h
    rw [interpolate_mul half_step_mem]
    decide +kernel
  case isFalse =>
    obtain ⟨low, high⟩ := quarterSin_interpolate_mem r
    have narrow := apInt_of_mem (show 0 < 16 by decide)
      (x := interpolate quarterSin (2 ^ 21) (2 ^ 20) r) (by omega) (by omega)
    rw [← narrow, interpolate, part]
    simp only [Int.shiftRight_eq_div_pow, quarterSin, ropeInterpBits]

theorem quarterWaveLookupQ15_mem {r : ℕ} (hr : r ≤ 2 ^ 30) :
  0 ≤ quarterWaveLookupQ15 r ∧ quarterWaveLookupQ15 r ≤ 32767
  := by
  rw [quarterWaveLookupQ15_eq hr]
  exact quarterSin_interpolate_mem r

theorem quarterWaveLookupQ15_mono {r r' : ℕ} (h : r ≤ r') (h' : r' ≤ 2 ^ 30) :
  quarterWaveLookupQ15 r ≤ quarterWaveLookupQ15 r'
  := by
  rcases h'.lt_or_eq with within | rfl
  · rw [quarterWaveLookupQ15_eq (le_trans h h'), quarterWaveLookupQ15_eq h']
    apply interpolate_mono half_step_mem quarterSin_le_succ h
    omega
  · exact (quarterWaveLookupQ15_mem h).2

/-- The indices at which `quarter_wave_lookup_q15` reads the table. -/
def quarterWaveIndices (phaseQuarter : ℕ) : List ℕ :=
  if phaseQuarter ≥ 2 ^ ropeQuarterBits then []
  else [phaseQuarter / 2 ^ ropeInterpBits, phaseQuarter / 2 ^ ropeInterpBits + 1]

theorem quarterWaveIndices_le (phaseQuarter : ℕ) :
  ∀ i ∈ quarterWaveIndices phaseQuarter, i ≤ 512
  := by
  intro i hi
  rw [quarterWaveIndices] at hi
  split at hi
  case isTrue => cases hi
  case isFalse h =>
    simp only [List.mem_cons, List.not_mem_nil, or_false, ropeInterpBits] at hi
    rw [ropeQuarterBits] at h
    omega

/-! ### The folded phase -/

/-- `reflected` of `sin_turns_q15`. -/
def reflectedPhase (phaseTurns : ℕ) : ℕ :=
  if phaseTurns / 2 ^ 30 % 2 = 1 then 2 ^ 30 - phaseTurns % 2 ^ 30 else phaseTurns % 2 ^ 30

theorem reflectedPhase_le (phaseTurns : ℕ) :
  reflectedPhase phaseTurns ≤ 2 ^ 30
  := by
  rw [reflectedPhase]
  split <;> omega

/-- The sine is that of the folded phase, negated in the second half turn. -/
theorem sinTurnsQ15_eq (phaseTurns : ℕ) :
  sinTurnsQ15 phaseTurns = if phaseTurns / 2 ^ 31 % 2 = 1
    then -quarterWaveLookupQ15 (reflectedPhase phaseTurns)
    else quarterWaveLookupQ15 (reflectedPhase phaseTurns)
  := by
  obtain ⟨low, high⟩ := quarterWaveLookupQ15_mem (reflectedPhase_le phaseTurns)
  have second_half : phaseTurns / 2 ^ ropeQuarterBits / 2 % 2 = phaseTurns / 2 ^ 31 % 2 := by
    rw [Nat.div_div_eq_div_mul]
    rfl
  have narrow : apInt 16 (-quarterWaveLookupQ15 (reflectedPhase phaseTurns))
      = -quarterWaveLookupQ15 (reflectedPhase phaseTurns) := by
    apply apInt_of_mem (by decide) <;> omega
  rw [sinTurnsQ15, second_half]
  change (if _ then apInt 16 (-quarterWaveLookupQ15 (reflectedPhase phaseTurns))
    else quarterWaveLookupQ15 (reflectedPhase phaseTurns)) = _
  rw [narrow]

/-! ### Symmetries -/

theorem sinTurnsQ15_mem (phaseTurns : ℕ) :
  -32767 ≤ sinTurnsQ15 phaseTurns ∧ sinTurnsQ15 phaseTurns ≤ 32767
  := by
  obtain ⟨low, high⟩ := quarterWaveLookupQ15_mem (reflectedPhase_le phaseTurns)
  rw [sinTurnsQ15_eq]
  split <;> omega

/-- Phases of opposite halves that are folded to the same place. -/
theorem sinTurnsQ15_eq_neg {m n : ℕ} (folded : reflectedPhase m = reflectedPhase n)
    (halves : m / 2 ^ 31 % 2 ≠ n / 2 ^ 31 % 2) :
  sinTurnsQ15 m = -sinTurnsQ15 n
  := by
  rw [sinTurnsQ15_eq, sinTurnsQ15_eq, folded]
  split <;> split
  · omega
  · rfl
  · exact (neg_neg _).symm
  · omega

/-- Half a turn on, the phase is folded to the same place. -/
theorem sinTurnsQ15_add_half (n : ℕ) :
  sinTurnsQ15 ((n + 2 ^ 31) % 2 ^ 32) = -sinTurnsQ15 n
  := by
  apply sinTurnsQ15_eq_neg
  · rw [reflectedPhase, reflectedPhase]
    split <;> split <;> omega
  · omega

/-- The opposite phase is folded to the same place, unless the sine is zero. -/
theorem sinTurnsQ15_neg {n : ℕ} (hn : n < 2 ^ 32) :
  sinTurnsQ15 ((2 ^ 32 - n) % 2 ^ 32) = -sinTurnsQ15 n
  := by
  by_cases zero : n % 2 ^ 31 = 0
  · have at_zero : n = 0 ∨ n = 2 ^ 31 := by omega
    rcases at_zero with rfl | rfl <;> decide
  · apply sinTurnsQ15_eq_neg
    · rw [reflectedPhase, reflectedPhase]
      split <;> split <;> omega
    · omega

theorem cosTurnsQ15_neg {n : ℕ} (hn : n < 2 ^ 32) :
  cosTurnsQ15 ((2 ^ 32 - n) % 2 ^ 32) = cosTurnsQ15 n
  := by
  have back : ((2 ^ 32 - n) % 2 ^ 32 + 2 ^ 30) % 2 ^ 32
      = (2 ^ 32 - (n + 3 * 2 ^ 30) % 2 ^ 32) % 2 ^ 32 := by
    omega
  have round : ((n + 3 * 2 ^ 30) % 2 ^ 32 + 2 ^ 31) % 2 ^ 32 = (n + 2 ^ 30) % 2 ^ 32 := by omega
  have bounded : (n + 3 * 2 ^ 30) % 2 ^ 32 < 2 ^ 32 := Nat.mod_lt _ (Nat.two_pow_pos 32)
  calc
    cosTurnsQ15 ((2 ^ 32 - n) % 2 ^ 32)
      = sinTurnsQ15 (((2 ^ 32 - n) % 2 ^ 32 + 2 ^ 30) % 2 ^ 32) := rfl
    _ = -sinTurnsQ15 ((n + 3 * 2 ^ 30) % 2 ^ 32) := by rw [back, sinTurnsQ15_neg bounded]
    _ = sinTurnsQ15 ((n + 2 ^ 30) % 2 ^ 32) := by rw [← sinTurnsQ15_add_half, round]
    _ = cosTurnsQ15 n := rfl

/-- The sine does not decrease in the first quarter. -/
theorem sinTurnsQ15_mono {n n' : ℕ} (h : n ≤ n') (h' : n' ≤ 2 ^ 30) :
  sinTurnsQ15 n ≤ sinTurnsQ15 n'
  := by
  have first : ∀ m ≤ 2 ^ 30, sinTurnsQ15 m = quarterWaveLookupQ15 m := by
    intro m hm
    have folded : reflectedPhase m = m := by
      rw [reflectedPhase]
      split <;> omega
    rw [sinTurnsQ15_eq, folded, if_neg (by omega)]
  rw [first n (le_trans h h'), first n' h']
  exact quarterWaveLookupQ15_mono h h'

/-- The sine and the cosine of every phase. -/
theorem sinTurnsQ15_symmetries (p : BitVec 32) :
  sinTurnsQ15 (-p).toNat = -sinTurnsQ15 p.toNat ∧
    sinTurnsQ15 (p + BitVec.ofNat 32 (2 ^ 31)).toNat = -sinTurnsQ15 p.toNat ∧
    cosTurnsQ15 (-p).toNat = cosTurnsQ15 p.toNat ∧
    (-32767 ≤ sinTurnsQ15 p.toNat ∧ sinTurnsQ15 p.toNat ≤ 32767) ∧
    (-32767 ≤ cosTurnsQ15 p.toNat ∧ cosTurnsQ15 p.toNat ≤ 32767) ∧
    (∀ q : BitVec 32, p ≤ q → q.toNat ≤ 2 ^ 30 → sinTurnsQ15 p.toNat ≤ sinTurnsQ15 q.toNat) ∧
    ∀ i ∈ quarterWaveIndices (reflectedPhase p.toNat), i ≤ 512
  := by
  have bounded := p.isLt
  refine ⟨?_, ?_, ?_, sinTurnsQ15_mem _, sinTurnsQ15_mem _, ?_, quarterWaveIndices_le _⟩
  · rw [BitVec.toNat_neg, sinTurnsQ15_neg bounded]
  · rw [BitVec.toNat_add, BitVec.toNat_ofNat, Nat.mod_eq_of_lt (show 2 ^ 31 < 2 ^ 32 by decide),
      sinTurnsQ15_add_half]
  · rw [BitVec.toNat_neg, cosTurnsQ15_neg bounded]
  · intro q h h'
    exact sinTurnsQ15_mono h h'

/-- The ends of the first quarter. -/
theorem sinTurnsQ15_symmetries_quarter :
  sinTurnsQ15 (0#32).toNat ≤ sinTurnsQ15 (BitVec.ofNat 32 (2 ^ 30)).toNat
  := by
  obtain ⟨-, -, -, -, -, increases, -⟩ := sinTurnsQ15_symmetries 0#32
  exact increases (BitVec.ofNat 32 (2 ^ 30)) (by decide) (by decide)

end Kv260
